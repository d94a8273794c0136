import OsU.Volume.Leak
import OsU.Proof.Directories

/-!
# No leaks over whole runs

A call that returns 0 got its edit to the volume, and all but two kinds of them are
tidy: a write to the name of a directory drops the directory, and `fs_remove` does not
look whether what it removes is a directory with something in it. In a run of successful
calls of the other kinds every cluster in use stays reachable from the root
(`noLeak_run`).

A tidy edit is one of three, by what happens to the slot: a new entry in a vacant slot,
a deleted entry, or a file with new contents. A deleted directory must have had nothing
to lose, which `fs_rmdir` checks itself, by scanning the table up to its end mark. For
that check to be enough nothing may stand behind an end mark, so the invariant of the
runs has a part on end marks (`NoLoss`).

Calls that fail are left out of the runs on purpose: what they leave behind is the
subject of `FailedWrite`, `FailedMkdir` and `Append`.
-/

set_option autoImplicit false

namespace OsU

open Runs

/-! ## Tidy edits, by what happens to the slot -/

section Tidy

variable {v v' : Volume} {d i first : Nat} {l ws : List Nat}

/-- A new entry in the first vacant slot. Its chain hangs off it, and everything else
hangs where it did. -/
theorem EditOk.tidy_added (h : EditOk v v' d i first l ws) {f11 : List UInt8}
    (hoff : Offered v d f11 i) (howns : (v'.slot d i).Owns)
    (hclus : (v'.slot d i).fstClusLo = l.headD 0) : TidyEdit v v' d i first l ws where
  toEditOk := h
  slot_lt := hoff.slot_lt
  not_dot := hoff.vacant.not_dot
  dropped := fun ho => absurd ho hoff.vacant.not_owns
  linked := fun _ => ⟨howns, hclus⟩
  empty := fun _ hs => absurd hs.owns hoff.vacant.not_owns
  mark := fun hz => absurd (Or.inl hz) howns.1.1
  reach := fun _ => Or.inr fun j hj hz => hoff.before j hj (Or.inl hz)

/-- A deleted entry that was a file, or a directory with nothing to lose. -/
theorem EditOk.tidy_removed (h : EditOk v v' d i (v.slot d i).fstClusLo [] ws) (hlt : i < maxEntries d)
    (ho : (v.slot d i).Owns) (hdel : (v'.slot d i).lead = 0xE5)
    (hempty : ∀ c, SubDir v d i c → ∀ j < maxEntries c, (v.slot c j).Owns →
      ¬ InRange (v.slot c j).fstClusLo) : TidyEdit v v' d i (v.slot d i).fstClusLo [] ws where
  toEditOk := h
  slot_lt := hlt
  not_dot := ho.2
  dropped := fun _ => rfl
  linked := fun hl => absurd rfl hl
  empty := hempty
  mark := fun hz => by
    rw [hdel] at hz
    exact absurd hz (by decide)
  reach := fun _ => Or.inl ho

/-- A file with new contents: the old chain is freed as a whole, the new one is the
entry's, and a file has nothing below it. -/
theorem EditOk.tidy_renewed (h : EditOk v v' d i (v.slot d i).fstClusLo l ws) (hlt : i < maxEntries d)
    (ho : (v.slot d i).Owns) (hfile : (v.slot d i).isDir = false)
    (hhead : FatDirEntry.SameHead (v.slot d i) (v'.slot d i))
    (hclus : (v'.slot d i).fstClusLo = l.headD 0) :
    TidyEdit v v' d i (v.slot d i).fstClusLo l ws where
  toEditOk := h
  slot_lt := hlt
  not_dot := ho.2
  dropped := fun _ => rfl
  linked := fun _ => by
    have hdot : (v'.slot d i).IsDot ↔ (v.slot d i).IsDot := hhead.isDot
    exact ⟨⟨hhead.live.mpr ho.1, fun hd => ho.2 (hdot.mp hd)⟩, hclus⟩
  empty := fun _ hs => absurd hs.isDir (by rw [hfile]; decide)
  mark := fun hz => hhead.lead ▸ hz
  reach := fun _ => Or.inl ho

end Tidy

/-! ## Calls that succeed -/

/-- The call changed nothing, or carried out a tidy edit. `Done` with `True` says that
the new entry is on the disk: a successful call has flushed it. -/
def Settled (s s' : Fs) : Prop :=
  Quiet s s' ∨ ∃ i e first l ws, Done s s' True i e first l ws ∧
    TidyEdit s.volume s'.volume s.currentDirCluster i first l ws

theorem Settled.of_quiet {s t s' : Fs} (hq : Quiet s t) (h : Settled t s') : Settled s s' := by
  rcases h with hq' | ⟨i, e, first, l, ws, hd, ht⟩
  · exact Or.inl (hq.trans hq')
  · rw [hq.volume, hq.currentDirCluster] at ht
    exact Or.inr ⟨i, e, first, l, ws, hd.of_quiet hq, ht⟩

theorem Settled.changed {s s' : Fs} (h : Settled s s') : Changed s s' := by
  rcases h with hq | ⟨i, e, first, l, ws, hd, ht⟩
  · exact .quiet hq
  · exact .edit hd ht.toEditOk ht.not_dot

/-- What a directory under that name has in it has no clusters. Empty files may be in
it; removing the directory then loses names, and no cluster. -/
def Fs.Hollow (s : Fs) (name : List UInt8) : Prop :=
  ∀ i c, (s.seek name).idx = some i → SubDir s.volume s.currentDirCluster i c →
    ∀ j < maxEntries c, (s.volume.slot c j).Owns → ¬ InRange (s.volume.slot c j).fstClusLo

section Mutators

variable {s : Fs} (hO : Owned s.volume) (hdir : IsDir s.volume s.currentDirCluster)
include hO hdir

theorem fsTouch_settled {name : List UInt8} (h0 : (fsTouch name s).1 = 0) :
    Settled s (fsTouch name s).2 := by
  have hs := hdir.atDir
  rcases fsTouch_cases hs name with hq | ⟨i, t, -, hsk, hp, he⟩
  · exact Or.inl hq
  · rw [he] at h0 ⊢
    have hd := (hp.settle hs (flushCurrentDir_finish (hp.atDir hs)) h0).1
    obtain ⟨hf, hoff⟩ := seek_offered hsk
    have hslot := hd.slot_new trivial
    refine Or.inr ⟨i, _, _, _, _, hd, (hd.touch_ok hO hdir hsk).tidy_added hoff ?_ ?_⟩
    · rw [hslot]
      exact FatDirEntry.owns_of_name hf (touchEntry_name11 hf) (by simp [touchEntry, newEntry]; decide)
    · rw [hslot]
      simp [touchEntry]

theorem fsMkdir_settled {name : List UInt8} (h0 : (fsMkdir name s).1 = 0) :
    Settled s (fsMkdir name s).2 := by
  have hs := hdir.atDir
  rcases fsMkdir_cases hs name with hr | ⟨i, x, -, hsk, hx, hx0, ⟨-, hne, -⟩ | ⟨t, hp, hsec, he⟩⟩
  · exact absurd h0 hr.code
  · exact absurd h0 hne
  · rw [he] at h0 ⊢
    obtain ⟨hd, hother⟩ := hp.settle hs (commit_finish (show (-6 : Int) ≠ 0 by decide) (hp.atDir hs)) h0
    obtain ⟨hf, hoff⟩ := seek_offered hsk
    have hslot := hd.slot_new trivial
    have hx2 := inRange_iff.mp hx
    have hne : x ≠ s.currentDirCluster := by
      rintro rfl
      obtain ⟨_, _, -, -, -, hu⟩ := hO.dir_owner hdir hx
      exact hu hx0
    have hok := hd.mkdir_ok (fun _ => (hother x hx2.1 hne).trans hsec) hO hdir hsk
    refine Or.inr ⟨i, _, _, _, _, hd, hok.tidy_added hoff ?_ ?_⟩
    · rw [hslot]
      exact FatDirEntry.owns_of_name hf (mkdirEntry_name11 hf x)
        (by simp [mkdirEntry, newEntry]; decide)
    · rw [hslot]
      exact mkdirEntry_clus _ (by omega)

theorem fsRemove_settled {name : List UInt8} (hhollow : s.Hollow name)
    (h0 : (fsRemove name s).1 = 0) : Settled s (fsRemove name s).2 := by
  have hs := hdir.atDir
  rcases fsRemove_cases hs name with hr | ⟨i, t, -, -, hsk, hp, -, he⟩
  · exact absurd h0 hr.code
  · rw [he] at h0 ⊢
    have hd := (hp.settle hs (commit_finish (show (-2 : Int) ≠ 0 by decide) (hp.atDir hs)) h0).1
    obtain ⟨hf, hfound⟩ := seek_found hsk
    have hlead : (removedEntry (s.volume.slot s.currentDirCluster i)).lead = 0xE5 := by
      simp [removedEntry]
    have hok := hd.remove_ok hlead hO hdir hsk (Or.inl trivial)
    refine Or.inr ⟨i, _, _, _, _, hd, hok.tidy_removed hfound.slot_lt (hfound.owns hf) ?_ ?_⟩
    · rw [hd.slot_new trivial, hlead]
    · exact fun c hc => hhollow i c hsk hc

theorem fsRmdir_settled (hD : DirsOk s.volume) (hE : EndMarks s.volume) {name : List UInt8}
    (h0 : (fsRmdir name s).1 = 0) : Settled s (fsRmdir name s).2 := by
  have hs := hdir.atDir
  rcases fsRmdir_cases hs name with hr | ⟨i, t, -, -, hsk, -, hempty, hp, -, he⟩
  · exact absurd h0 hr.code
  · rw [he] at h0 ⊢
    have hd := (hp.settle hs (commit_finish (show (-5 : Int) ≠ 0 by decide) (hp.atDir hs)) h0).1
    obtain ⟨hf, hfound⟩ := seek_found hsk
    have hlead : (rmdiredEntry (s.volume.slot s.currentDirCluster i)).lead = 0xE5 := by
      simp [rmdiredEntry]
    have hok := hd.remove_ok hlead hO hdir hsk (Or.inl trivial)
    refine Or.inr ⟨i, _, _, _, _, hd, hok.tidy_removed hfound.slot_lt (hfound.owns hf) ?_ ?_⟩
    · rw [hd.slot_new trivial, hlead]
    · intro c hc j hj ho
      rw [hc.clus] at hempty
      exact absurd ho (hE.empty hD hdir hc hempty j hj)

theorem fsWriteRaw_settled {name data : List UInt8} (hfile : s.FileOrAbsent name)
    (h0 : (fsWriteRaw name data s).1 = 0) : Settled s (fsWriteRaw name data s).2 := by
  have hs := hdir.atDir
  rcases fsWriteRaw_cases hs name data with ⟨hr, -⟩ | ⟨i, e, u, hw, hp, -, -, he⟩
  · exact absurd h0 hr.code
  · rw [he] at h0 ⊢
    rcases writeEntry_cases hp data with ⟨ws, hc, -⟩ | ⟨t, l, hpt, hc, -⟩
    · rw [hc] at h0
      exact absurd h0 (by decide)
    · rw [hc] at h0 ⊢
      have hd := (hpt.settle hs (commit_finish (show (-4 : Int) ≠ 0 by decide) (hpt.atDir hs)) h0).1
      have hslot := hd.slot_new trivial
      have hhead := writtenEntry_head e (l.headD 0) data.length
      have hclus := writtenEntry_clus e (headD_lt fun c hc => (hd.fresh c hc).1) data.length
      have hok := hd.write_ok hhead (Or.inl hclus) hO hdir hw.slot hfile (Or.inl trivial)
      rw [← hslot] at hhead hclus
      refine Or.inr ⟨i, _, _, _, _, hd, ?_⟩
      obtain ⟨hf, ⟨hsk, hfound, rfl⟩ | ⟨-, hoff, rfl⟩⟩ := writeSlot_cases hw.slot
      · exact hok.tidy_renewed hfound.slot_lt (hfound.owns hf) (hfile i hsk) hhead hclus
      · refine hok.tidy_added hoff ?_ hclus
        refine FatDirEntry.owns_of_name hf (by rw [hhead.name11, newEntry_name11 hf]) ?_
        rw [hhead.attr]
        simp [newEntry]
        decide

theorem fsAppend_settled {name text : List UInt8} (hfile : s.FileOrAbsent name)
    (h0 : (fsAppend name text s).1 = 0) : Settled s (fsAppend name text s).2 := by
  have hq := appendState_quiet hdir.atDir name text
  rcases fsAppend_cases hdir.atDir name text with hr | he
  · exact absurd h0 hr.code
  · rw [he] at h0 ⊢
    refine Settled.of_quiet hq (fsWriteRaw_settled ?_ ?_ ((hq.fileOrAbsent name).mpr hfile) h0)
    · rw [hq.volume]
      exact hO
    · rw [hq.volume, hq.currentDirCluster]
      exact hdir

end Mutators

/-! ## Runs of successful calls -/

/-- The condition on a call that succeeds: a write is not to a directory, and `fs_remove` removes
no directory with clusters in it. -/
def FsOp.Tidy : FsOp → Fs → Prop
  | .writeRaw name _, s => s.FileOrAbsent name
  | .write name _, s => s.FileOrAbsent name
  | .append name _, s => s.FileOrAbsent name
  | .remove name, s => s.Hollow name
  | _, _ => True

/-- The invariant of the runs: the sound tree on a device that answers, every cluster in
use on the chain of some entry that is reached, and no live entry behind an end mark. -/
structure NoLoss (s : Fs) : Prop extends GoodTree s where
  noLeak : NoLeak s.volume
  endMarks : EndMarks s.volume

theorem NoLoss.settled {s s' : Fs} (h : NoLoss s) (hs : Settled s s') : NoLoss s' := by
  have ht := h.toTreeOk.changed hs.changed
  rcases hs with hq | ⟨i, e, first, l, ws, hd, htidy⟩
  · refine ⟨⟨ht, hq.good h.good⟩, ?_, ?_⟩
    · rw [hq.volume]
      exact h.noLeak
    · rw [hq.volume]
      exact h.endMarks
  · exact ⟨⟨ht, fun n => by rw [hd.ok, h.good n]⟩, htidy.noLeak h.owned h.dirs h.noLeak,
      htidy.endMarks h.owned h.endMarks⟩

theorem NoLoss.moved {s s' : Fs} (h : NoLoss s) (hm : Moved s s') : NoLoss s' := by
  have ht := h.toTreeOk.of_moved hm
  obtain ⟨c, p, hc, hq⟩ := hm
  have hv : s'.volume = s.volume := hq.volume
  refine ⟨⟨ht, hq.good h.good⟩, ?_, ?_⟩
  · rw [hv]
    exact h.noLeak
  · rw [hv]
    exact h.endMarks

/-- **A successful call of these kinds leaks nothing.** -/
theorem NoLoss.step {s : Fs} (h : NoLoss s) {op : FsOp} (h0 : (op.exec s).1 = 0) (ht : op.Tidy s) :
    NoLoss (op.step s) := by
  have hs := h.dir.atDir
  cases op with
  | touch name => exact h.settled (fsTouch_settled h.owned h.dir h0)
  | remove name => exact h.settled (fsRemove_settled h.owned h.dir ht h0)
  | writeRaw name data => exact h.settled (fsWriteRaw_settled h.owned h.dir ht h0)
  | write name text => exact h.settled (fsWriteRaw_settled h.owned h.dir ht h0)
  | append name text => exact h.settled (fsAppend_settled h.owned h.dir ht h0)
  | mkdir name => exact h.settled (fsMkdir_settled h.owned h.dir h0)
  | rmdir name => exact h.settled (fsRmdir_settled h.owned h.dir h.dirs h.endMarks h0)
  | readPtr name => exact h.settled (Or.inl (fsReadPtr_quiet hs name))
  | listEntry index => exact h.settled (Or.inl (listCurrent_quiet hs _ index))
  | isDir name => exact h.settled (Or.inl (fsIsDir_quiet hs name))
  | listDirEntry index => exact h.settled (Or.inl (listCurrent_quiet hs _ index))
  | chdir path => exact h.moved (h.toTreeOk.chdir_moved path)
  | getcwd => exact h.moved (fsGetcwd_moved h.dir)

theorem noLoss_fresh {d : Device} (hg : d.Good) (hf : d.Formats) : NoLoss (fsInit (Fs.boot d)) := by
  have hgood := goodTree_fresh hg hf
  obtain ⟨-, -, -, -, hready⟩ := fsInit_fresh d hf
  have hempty := fsInit_empty hf (hready hg)
  refine ⟨hgood, fun c hc hu => ?_, fun d' hd' j k _ _ _ ho => ?_⟩
  · exact absurd (hempty.fat c (inRange_iff.mp hc).1) hu
  · obtain rfl := hempty.isDir hd'
    exact ho.1.1 (Or.inl (hempty.root k))

/-- **Nothing leaks** in a run of successful calls: any number of them, in any order,
from the volume the driver formatted. The condition on each call is on the state it
meets. -/
theorem noLeak_run {d : Device} (hg : d.Good) (hf : d.Formats) {ops : List FsOp}
    (h : Along FsOp.step (fun s op => (op.exec s).1 = 0 ∧ op.Tidy s) (fsInit (Fs.boot d)) ops) :
    NoLeak (run FsOp.step (fsInit (Fs.boot d)) ops).volume :=
  (run_invariant (P := NoLoss) (fun _ _ hn hc => hn.step hc.1 hc.2) (noLoss_fresh hg hf) h).noLeak

/-- A directory with a file in it, removed with `fs_remove`. -/
def leakRun : List FsOp :=
  [.mkdir [0x44], .chdir [0x44], .writeRaw [0x46] [0x78], .chdir [0x2E, 0x2E], .remove [0x44]]

/-- All five calls return 0, and the cluster of the file is in use with no entry left at all. -/
theorem leakRun_leaks :
    blankDisk.Good ∧ blankDisk.Formats ∧
    Along FsOp.step (fun s op => (op.exec s).1 = 0) (fsInit (Fs.boot blankDisk)) leakRun ∧
    ¬ NoLeak (run FsOp.step (fsInit (Fs.boot blankDisk)) leakRun).volume := by
  refine ⟨blankDisk_good, blankDisk_formats, ⟨by decide +kernel, by decide +kernel,
    by decide +kernel, by decide +kernel, by decide +kernel, trivial⟩, fun h => ?_⟩
  have hroot : ∀ i < maxEntries 0,
      ¬ ((run FsOp.step (fsInit (Fs.boot blankDisk)) leakRun).volume.slot 0 i).Owns := by
    decide +kernel
  have hused : (run FsOp.step (fsInit (Fs.boot blankDisk)) leakRun).volume.fat 3 ≠ 0 := by
    decide +kernel
  obtain ⟨d, i, ho, -⟩ := h 3 (by decide) hused
  obtain rfl := ho.dir.eq_root hroot
  exact hroot i ho.slot_lt ho.owns

/-- With the file removed before the directory, nothing leaks. -/
theorem noLeak_run_fresh :
    NoLeak (run FsOp.step (fsInit (Fs.boot blankDisk))
      [.mkdir [0x44], .touch [0x46], .chdir [0x44], .mkdir [0x45], .rmdir [0x45],
        .chdir [0x2E, 0x2E], .rmdir [0x44]]).volume := by
  have h : Along FsOp.step (fun s op => (op.exec s).1 = 0 ∧ op.Tidy s) (fsInit (Fs.boot blankDisk))
      [.mkdir [0x44], .touch [0x46], .chdir [0x44], .mkdir [0x45], .rmdir [0x45],
        .chdir [0x2E, 0x2E], .rmdir [0x44]] :=
    ⟨⟨by decide +kernel, trivial⟩, ⟨by decide +kernel, trivial⟩, ⟨by decide +kernel, trivial⟩,
      ⟨by decide +kernel, trivial⟩, ⟨by decide +kernel, trivial⟩, ⟨by decide +kernel, trivial⟩,
      ⟨by decide +kernel, trivial⟩, trivial⟩
  exact @noLeak_run _ blankDisk_good blankDisk_formats _ h

end OsU
