import OsU.Proof.RoundTrip

/-!
# One call, on any device

What a call does to the tree, whatever the device does. Two things can break the tree,
and both are conditions on the state before the call (`FsOp.Safe`):

- a write that gets to the entry of a *directory*, which turns its sector into data;
- freeing the chain of an entry of a directory other than the root and not getting the
  new entry to the disk: the table has let go of clusters an entry still claims.

A safe call is quiet, moves to another directory of the tree, or is an edit the tree
survives (`Changed`); the invariant `TreeOk` is kept by each.

The device answers each transfer by the number of the poll it is at, so whether a commit
will succeed is a property of the state: it is known how many polls there are before it
and how many it takes. That is what `Safe` looks at, and on a device that never fails it
holds of every call that strands nothing.
-/

set_option autoImplicit false

namespace OsU

/-! ## Safe calls -/

/-- The polls a commit takes. -/
def commitPolls (d : Nat) : Nat := 32 + dirSectors d

/-- The call gets past its checks and its two looks at the directory. -/
def Fs.Opens (s : Fs) : Prop := s.fsReady = true ∧ s.dev.Runs (2 * dirReads s.currentDirCluster)

/-- Slot `i` of the current directory is on the disk and has a chain to lose. In the
root this is never so, because the root is edited in place: what the disk has later is
what memory has. -/
def Fs.CanStrand (s : Fs) (i : Nat) : Prop :=
  s.currentDirCluster ≠ 0 ∧ InRange (s.volume.slot s.currentDirCluster i).fstClusLo

/-- A write that does not reach a directory, and that completes if it frees a chain it could
strand. -/
def Fs.WriteSafe (s : Fs) (name data : List UInt8) : Prop :=
  s.Opens → data.length ≤ fsMaxFileSize → ∀ i, (s.seek name).idx = some i →
    (s.volume.slot s.currentDirCluster i).isDir = false ∧
    (s.CanStrand i →
      sectorsFor data.length ≤ (s.freeAfter (s.volume.slot s.currentDirCluster i).fstClusLo).card ∧
      s.dev.Runs (2 * dirReads s.currentDirCluster + (sectorsFor data.length +
        commitPolls s.currentDirCluster)))

/-- A removal that completes if it frees a chain it could strand. -/
def Fs.RemoveSafe (s : Fs) (name : List UInt8) : Prop :=
  s.Opens → ∀ i, (s.seek name).idx = some i → s.CanStrand i →
    s.dev.Runs (2 * dirReads s.currentDirCluster + commitPolls s.currentDirCluster)

/-- The directory in slot `i` looks empty to `fs_rmdir`. -/
def Fs.LooksEmpty (s : Fs) (i : Nat) : Prop :=
  emptyLoop (entryAt (s.volume.sector (s.volume.slot s.currentDirCluster i).fstClusLo).mem) 14 2 = true

def Fs.RmdirSafe (s : Fs) (name : List UInt8) : Prop :=
  s.Opens → ∀ i, (s.seek name).idx = some i →
    (s.volume.slot s.currentDirCluster i).isDir = true → s.LooksEmpty i → s.CanStrand i →
    s.dev.Runs (2 * dirReads s.currentDirCluster + 1) →
    s.dev.Runs (2 * dirReads s.currentDirCluster + 1 + commitPolls s.currentDirCluster)

/-- The condition on a call. Calls that free nothing have none; `fs_append` has that of
its write, in the state its read leaves. -/
def FsOp.Safe : FsOp → Fs → Prop
  | .writeRaw name data, s => s.WriteSafe name data
  | .write name text, s => s.WriteSafe name (cstr text)
  | .append name text, s => (s.appendState name text).WriteSafe name (s.appended name text)
  | .remove name, s => s.RemoveSafe name
  | .rmdir name, s => s.RmdirSafe name
  | _, _ => True

/-! ## Changes -/

/-- What a call that stays in its directory does. -/
inductive Changed (s s' : Fs) : Prop
  | quiet : Quiet s s' → Changed s s'
  | edit {reached : Prop} {i first : Nat} {e : FatDirEntry} {l ws : List Nat} :
      Done s s' reached i e first l ws →
      EditOk s.volume s'.volume s.currentDirCluster i first l ws →
      ¬ (s.volume.slot s.currentDirCluster i).IsDot → Changed s s'

theorem Done.of_quiet {s t s' : Fs} (hq : Quiet s t) {reached : Prop} {i first : Nat}
    {e : FatDirEntry} {l ws : List Nat} (h : Done t s' reached i e first l ws) :
    Done s s' reached i e first l ws where
  toEdit := by
    rw [← hq.volume, ← hq.currentDirCluster]
    exact h.toEdit
  fsReady := h.fsReady.trans hq.fsReady
  currentDirCluster := h.currentDirCluster.trans hq.currentDirCluster
  currentPath := h.currentPath.trans hq.currentPath
  slot_lt := by
    rw [← hq.currentDirCluster]
    exact h.slot_lt
  slot_new := by
    rw [← hq.currentDirCluster]
    exact h.slot_new
  slot_old := by
    rw [← hq.volume, ← hq.currentDirCluster]
    exact h.slot_old
  sector_old := by
    rw [← hq.volume, ← hq.currentDirCluster]
    exact h.sector_old
  ok := h.ok.trans hq.ok
  log := by
    rw [← hq.written, ← hq.currentDirCluster]
    exact h.log

/-- A quiet step before does not matter. -/
theorem Changed.of_quiet {s t s' : Fs} (hq : Quiet s t) (h : Changed t s') : Changed s s' := by
  cases h with
  | quiet hq' => exact .quiet (hq.trans hq')
  | edit hd hok hdot =>
    rw [hq.volume, hq.currentDirCluster] at hok
    rw [hq.volume, hq.currentDirCluster] at hdot
    exact .edit (hd.of_quiet hq) hok hdot

/-- The entry a write starts from is no dot entry, nor is what was in the slot. -/
theorem writeSlot_not_dot {s : Fs} {name : List UInt8} {i : Nat} {e : FatDirEntry}
    (h : s.writeSlot name = some (i, e)) : ¬ (s.volume.slot s.currentDirCluster i).IsDot := by
  obtain ⟨hf, ⟨-, hfound, -⟩ | ⟨-, hoff, -⟩⟩ := writeSlot_cases h
  · exact (hfound.owns hf).2
  · exact hoff.vacant.not_dot

theorem reached_or_empty {s : Fs} {i : Nat} {p : Prop} (h : ¬ s.CanStrand i) :
    (s.currentDirCluster = 0 ∨ p) ∨ ¬ InRange (s.volume.slot s.currentDirCluster i).fstClusLo := by
  by_cases h0 : s.currentDirCluster = 0
  · exact Or.inl (Or.inl h0)
  · exact Or.inr fun hr => h ⟨h0, hr⟩

section Mutators

variable {s : Fs} (hO : Owned s.volume) (hdir : IsDir s.volume s.currentDirCluster)
include hO hdir

theorem fsTouch_changed (name : List UInt8) : Changed s (fsTouch name s).2 := by
  have hs := hdir.atDir
  rcases fsTouch_cases hs name with hq | ⟨i, t, -, hsk, hp, he⟩
  · exact .quiet hq
  · have hfin := flushCurrentDir_finish (hp.atDir hs)
    rw [he]
    obtain ⟨hd, -⟩ := hp.finish hs hfin
    exact .edit hd (hd.touch_ok hO hdir hsk) (seek_offered hsk).2.vacant.not_dot

theorem fsRemove_changed {name : List UInt8} (hsafe : s.RemoveSafe name) :
    Changed s (fsRemove name s).2 := by
  have hs := hdir.atDir
  rcases fsRemove_cases hs name with hr | ⟨i, t, hready, hopen, hsk, hp, hclock, he⟩
  · exact .quiet hr.quiet
  · have hfin := commit_finish (show (-2 : Int) ≠ 0 by decide) (hp.atDir hs)
    rw [he]
    obtain ⟨hd, -⟩ := hp.finish hs hfin
    obtain ⟨hf, hfound⟩ := seek_found hsk
    refine .edit hd (hd.remove_ok (by simp [removedEntry]) hO hdir hsk ?_) (hfound.owns hf).2
    by_cases hstrand : s.CanStrand i
    · have hruns := hsafe ⟨hready, hopen⟩ i hsk hstrand
      obtain ⟨w, -, hw⟩ := hp.wrote
      rw [Device.runs_add hw.ok hclock] at hruns
      rw [hp.currentDirCluster]
      exact Or.inl (Or.inr hruns.2)
    · exact reached_or_empty hstrand

theorem fsRmdir_changed {name : List UInt8} (hsafe : s.RmdirSafe name) :
    Changed s (fsRmdir name s).2 := by
  have hs := hdir.atDir
  rcases fsRmdir_cases hs name with hr | ⟨i, t, hready, hopen, hsk, hd', hempty, hp, hclock, he⟩
  · exact .quiet hr.quiet
  · have hfin := commit_finish (show (-5 : Int) ≠ 0 by decide) (hp.atDir hs)
    rw [he]
    obtain ⟨hd, -⟩ := hp.finish hs hfin
    obtain ⟨hf, hfound⟩ := seek_found hsk
    refine .edit hd (hd.remove_ok (by simp [rmdiredEntry]) hO hdir hsk ?_) (hfound.owns hf).2
    by_cases hstrand : s.CanStrand i
    · have hlook : s.Opens := ⟨hready, fun k hk => hopen k (by omega)⟩
      have hruns := hsafe hlook i hsk hd' hempty hstrand hopen
      obtain ⟨w, -, hw⟩ := hp.wrote
      rw [Device.runs_add hw.ok hclock] at hruns
      rw [hp.currentDirCluster]
      exact Or.inl (Or.inr hruns.2)
    · exact reached_or_empty hstrand

/-- A new directory, on the volume or not. -/
theorem fsMkdir_edit (name : List UInt8) :
    Quiet s (fsMkdir name s).2 ∨ ∃ reached i x, s.seek name = ⟨none, some i⟩ ∧
      Done s (fsMkdir name s).2 reached i (mkdirEntry (nameBytes name) x) 0 [x] [x] ∧
      EditOk s.volume (fsMkdir name s).2.volume s.currentDirCluster i 0 [x] [x] := by
  have hs := hdir.atDir
  rcases fsMkdir_cases hs name with hr | ⟨i, x, -, hsk, hx, hx0, hcase⟩
  · exact Or.inl hr.quiet
  · right
    have hne : x ≠ s.currentDirCluster := by
      rintro rfl
      obtain ⟨_, _, -, -, -, hu⟩ := hO.dir_owner hdir hx
      exact hu hx0
    rcases hcase with ⟨h0, -, hheld⟩ | ⟨t, hp, hsec, he⟩
    · -- The directory could not be read again: the new cluster is lost.
      have hd := hheld.abandon h0 (seek_offered hsk).2.slot_lt (mkdirEntry (nameBytes name) x)
      exact ⟨False, i, x, hsk, hd, hd.mkdir_ok False.elim hO hdir hsk⟩
    · have hfin := commit_finish (show (-6 : Int) ≠ 0 by decide) (hp.atDir hs)
      rw [he]
      obtain ⟨hd, hother⟩ := hp.finish hs hfin
      refine ⟨_, i, x, hsk, hd, hd.mkdir_ok (fun _ => ?_) hO hdir hsk⟩
      rw [hother x (inRange_iff.mp hx).1 hne, hsec]

theorem fsMkdir_changed (name : List UInt8) : Changed s (fsMkdir name s).2 := by
  rcases fsMkdir_edit hO hdir name with hq | ⟨_, i, x, hsk, hd, hok⟩
  · exact .quiet hq
  · exact .edit hd hok (seek_offered hsk).2.vacant.not_dot

theorem fsWriteRaw_changed {name data : List UInt8} (hsafe : s.WriteSafe name data) :
    Changed s (fsWriteRaw name data s).2 := by
  have hs := hdir.atDir
  rcases fsWriteRaw_cases hs name data with ⟨hr, -⟩ | ⟨i, e, u, hw, hp, hclock, hok, he⟩
  · exact .quiet hr.quiet
  · have hsafe' := hsafe ⟨hw.ready, hw.runs⟩ hw.fits
    have hfile : s.FileOrAbsent name := fun j hj => (hsafe' j hj).1
    have hdot := writeSlot_not_dot hw.slot
    -- A chain that could be stranded belongs to the entry that was found.
    have hfreed : InRange e.fstClusLo → s.currentDirCluster ≠ 0 →
        sectorsFor data.length ≤ (s.freeAfter e.fstClusLo).card ∧
          s.dev.Runs (2 * dirReads s.currentDirCluster + (sectorsFor data.length +
            commitPolls s.currentDirCluster)) := by
      intro hrng h0
      obtain ⟨-, ⟨hsk, -, rfl⟩ | ⟨-, -, rfl⟩⟩ := writeSlot_cases hw.slot
      · exact (hsafe' i hsk).2 ⟨h0, hrng⟩
      · rw [newEntry_clus] at hrng
        exact absurd hrng not_inRange_zero
    rw [he]
    rcases writeEntry_cases hp data with ⟨ws, -, hpd, hwhy⟩ | ⟨t, l, hpt, hc, hroom, hruns, -, hck, -⟩
    · have hd := hpd.abandon
      refine .edit hd (hd.write_ok (droppedEntry_head e) ?_ hO hdir hw.slot hfile ?_) hdot
      · rcases droppedEntry_clus e with h | ⟨h, hlt⟩
        · exact Or.inl h
        · exact Or.inr ⟨h, rfl, hlt⟩
      · by_cases h0 : s.currentDirCluster = 0
        · exact Or.inl h0
        · refine Or.inr fun hrng => hwhy ?_
          obtain ⟨h₁, h₂⟩ := hfreed hrng h0
          rw [Device.runs_add hok hclock] at h₂
          exact ⟨h₁, fun k hk => h₂.2 k (by omega)⟩
    · have hfin := commit_finish (show (-4 : Int) ≠ 0 by decide) (hpt.atDir hs)
      rw [← hc] at hfin
      obtain ⟨hd, -⟩ := hpt.finish hs hfin
      have hclus := writtenEntry_clus e (headD_lt fun c hc => (hd.fresh c hc).1) data.length
      refine .edit hd (hd.write_ok (writtenEntry_head e _ _) (Or.inl hclus) hO hdir hw.slot hfile ?_)
        hdot
      by_cases hstrand : InRange e.fstClusLo ∧ s.currentDirCluster ≠ 0
      · obtain ⟨-, h₂⟩ := hfreed hstrand.1 hstrand.2
        rw [Device.runs_add hok hclock] at h₂
        obtain ⟨w, -, hwt⟩ := hpt.wrote
        rw [Device.runs_add (hwt.ok.trans hok.symm) hck] at h₂
        rw [hpt.currentDirCluster]
        exact Or.inl (Or.inr h₂.2.2)
      · rw [not_and_or] at hstrand
        rcases hstrand with h | h
        · exact Or.inr h
        · exact Or.inl (Or.inl (not_not.mp h))

theorem fsAppend_changed {name text : List UInt8}
    (hsafe : (s.appendState name text).WriteSafe name (s.appended name text)) :
    Changed s (fsAppend name text s).2 := by
  have hq := appendState_quiet hdir.atDir name text
  rcases fsAppend_cases hdir.atDir name text with hr | he
  · exact .quiet hr.quiet
  · rw [he]
    refine Changed.of_quiet hq (fsWriteRaw_changed ?_ ?_ hsafe)
    · rw [hq.volume]
      exact hO
    · rw [hq.volume, hq.currentDirCluster]
      exact hdir

end Mutators

/-! ## The invariant of the tree -/

/-- Chains are owned, directories keep their promise, and the current directory is one. -/
structure TreeOk (s : Fs) : Prop where
  owned : Owned s.volume
  dirs : DirsOk s.volume
  dir : IsDir s.volume s.currentDirCluster

theorem TreeOk.of_quiet {s s' : Fs} (h : TreeOk s) (hq : Quiet s s') : TreeOk s' := by
  obtain ⟨h₁, h₂, h₃⟩ := h
  rw [← hq.volume] at h₁ h₂ h₃
  rw [← hq.currentDirCluster] at h₃
  exact ⟨h₁, h₂, h₃⟩

theorem TreeOk.changed {s s' : Fs} (h : TreeOk s) (hc : Changed s s') : TreeOk s' := by
  cases hc with
  | quiet hq => exact h.of_quiet hq
  | edit hd hok hdot =>
    refine ⟨hok.owned h.owned, hok.dirsOk h.owned h.dirs hdot, ?_⟩
    rw [hd.currentDirCluster]
    exact hok.isDir_self h.owned

/-- The parent a directory names is a directory of the tree. -/
theorem TreeOk.parent {s : Fs} (h : TreeOk s) (h0 : s.currentDirCluster ≠ 0) :
    IsDir s.volume (s.volume.slot s.currentDirCluster 1).fstClusLo := by
  rcases h.dir.cases_sub with h0' | ⟨p, j, hp, hs⟩
  · exact absurd h0' h0
  · obtain ⟨-, -, -, -, hup⟩ := DirsOk.subDir h.dirs hp hs
    rw [hup]
    exact hp

/-- A directory entry of the tree leads to a directory of the tree. -/
theorem TreeOk.child {s : Fs} (h : TreeOk s) {name : List UInt8} {i : Nat}
    (hi : (s.seek name).idx = some i) (hd : (s.volume.slot s.currentDirCluster i).isDir = true) :
    IsDir s.volume (s.volume.slot s.currentDirCluster i).fstClusLo := by
  obtain ⟨hf, hfound⟩ := seek_found hi
  have ho := hfound.owner hf h.dir
  have hrng := (h.dirs ho hd).inRange
  exact .sub h.dir ⟨ho.slot_lt, ho.owns, hd, rfl, (inRange_iff.mp hrng).1⟩

/-- To another directory of the tree, with some path. -/
def Moved (s s' : Fs) : Prop :=
  ∃ c p, IsDir s.volume c ∧ Quiet { s with currentDirCluster := c, currentPath := p } s'

theorem Quiet.moved {s s' : Fs} (h : Quiet s s') (hdir : IsDir s.volume s.currentDirCluster) :
    Moved s s' := ⟨s.currentDirCluster, s.currentPath, hdir, h⟩

theorem TreeOk.of_moved {s s' : Fs} (h : TreeOk s) (hm : Moved s s') : TreeOk s' := by
  obtain ⟨c, p, hc, hq⟩ := hm
  have hat : TreeOk { s with currentDirCluster := c, currentPath := p } := ⟨h.owned, h.dirs, hc⟩
  exact hat.of_quiet hq

theorem TreeOk.chdirRelative_moved {s : Fs} (h : TreeOk s) (path : List UInt8) :
    Moved s (chdirRelative path s).2 := by
  rcases chdirRelative_cases h.dir.atDir path with hr | ⟨-, hc⟩
  · exact hr.quiet.moved h.dir
  · rcases hc with ⟨-, -, hq⟩ | ⟨-, h0, hq⟩ | ⟨i, hi, hd, hq⟩
    · exact hq.moved h.dir
    · exact ⟨_, _, h.parent h0, hq⟩
    · exact ⟨_, _, h.child hi hd, hq⟩

theorem TreeOk.chdir_moved {s : Fs} (h : TreeOk s) (path : List UInt8) :
    Moved s (fsChdir path s).2 := by
  have hroot : ∀ p, TreeOk { s with currentDirCluster := 0, currentPath := p } := fun _ =>
    ⟨h.owned, h.dirs, .root⟩
  simp only [fsChdir]
  split
  · exact (Quiet.refl s).moved h.dir
  · split
    · split
      · exact ⟨0, _, .root, Quiet.refl _⟩
      · obtain ⟨c, p, hc, hq⟩ := (hroot (rootPath s.currentPath)).chdirRelative_moved path.tail
        exact ⟨c, p, hc, hq⟩
    · exact h.chdirRelative_moved _

theorem fsGetcwd_moved {s : Fs} (hdir : IsDir s.volume s.currentDirCluster) :
    Moved s (fsGetcwd s).2 := by
  simp only [fsGetcwd]
  split
  · exact ⟨_, _, hdir, Quiet.refl _⟩
  · exact (Quiet.refl s).moved hdir

/-- **What a safe call does**, on any device: it changes the directory it is in, or moves. -/
theorem TreeOk.step_cases {s : Fs} (h : TreeOk s) {op : FsOp} (hsafe : op.Safe s) :
    Changed s (op.step s) ∨ Moved s (op.step s) := by
  have hs := h.dir.atDir
  cases op with
  | touch name => exact Or.inl (fsTouch_changed h.owned h.dir name)
  | remove name => exact Or.inl (fsRemove_changed h.owned h.dir hsafe)
  | writeRaw name data => exact Or.inl (fsWriteRaw_changed h.owned h.dir hsafe)
  | write name text => exact Or.inl (fsWriteRaw_changed h.owned h.dir hsafe)
  | append name text => exact Or.inl (fsAppend_changed h.owned h.dir hsafe)
  | readPtr name => exact Or.inl (.quiet (fsReadPtr_quiet hs name))
  | listEntry index => exact Or.inl (.quiet (listCurrent_quiet hs _ index))
  | mkdir name => exact Or.inl (fsMkdir_changed h.owned h.dir name)
  | rmdir name => exact Or.inl (fsRmdir_changed h.owned h.dir hsafe)
  | chdir path => exact Or.inr (h.chdir_moved path)
  | getcwd => exact Or.inr (fsGetcwd_moved h.dir)
  | isDir name => exact Or.inl (.quiet (fsIsDir_quiet hs name))
  | listDirEntry index => exact Or.inl (.quiet (listCurrent_quiet hs _ index))

/-- **One safe call keeps the tree.** -/
theorem TreeOk.step {s : Fs} (h : TreeOk s) {op : FsOp} (hsafe : op.Safe s) : TreeOk (op.step s) := by
  rcases h.step_cases hsafe with hc | hm
  · exact h.changed hc
  · exact h.of_moved hm

/-- A safe call keeps the chains well formed too. -/
theorem TreeOk.chainsOk_step {s : Fs} (h : TreeOk s) (hC : ChainsOk s.volume) {op : FsOp}
    (hsafe : op.Safe s) : ChainsOk (op.step s).volume := by
  rcases h.step_cases hsafe with hc | ⟨c, p, -, hq⟩
  · cases hc with
    | quiet hq =>
      rw [hq.volume]
      exact hC
    | edit _ hok _ => exact hok.chainsOk hC
  · rw [hq.volume]
    exact hC

/-- How the device answers is not the driver's to change. -/
theorem TreeOk.step_ok {s : Fs} (h : TreeOk s) {op : FsOp} (hsafe : op.Safe s) :
    (op.step s).dev.ok = s.dev.ok := by
  rcases h.step_cases hsafe with hc | ⟨c, p, -, hq⟩
  · cases hc with
    | quiet hq => exact hq.ok
    | edit hd _ _ => exact hd.ok
  · exact hq.ok

/-- The empty volume has a tree: the root. -/
theorem Volume.Empty.treeOk {s : Fs} (h : s.volume.Empty) (h0 : s.currentDirCluster = 0) :
    TreeOk s := by
  refine ⟨h.chainsOk.owned, h.dirsOk, ?_⟩
  rw [h0]
  exact .root

end OsU
