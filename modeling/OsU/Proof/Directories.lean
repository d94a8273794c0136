import OsU.Lib.Runs
import OsU.Proof.Ownership

/-!
# Directories over whole runs

From a freshly formatted volume, on a device whose transfers succeed, every directory entry of the
tree leads to a directory: a cluster of its own whose sector names itself and its parent. This is
`TreeOk` carried over the run, and it holds as long as no call is one of the two that break it:
`fs_write_raw` looks its name up among files and directories alike, so a write to the name of a
directory puts data where the directory was; and a write that strands a chain leaves clusters
claimed that the next `fs_mkdir` may be given.
-/

set_option autoImplicit false

namespace OsU

open Runs

/-- The write, if it gets past its checks, is not to a directory and strands no chain. A
write that is refused, by an unmounted driver or for its size, is clean whatever its
name. -/
def Fs.WriteClean (s : Fs) (name data : List UInt8) : Prop :=
  s.fsReady = true → data.length ≤ fsMaxFileSize →
    s.FileOrAbsent name ∧ ¬ s.Strands name data

/-- The condition on a call: if it writes, it does not write to a directory and does not
fail with the old chain freed. It is on the call and the state before it. -/
def FsOp.Clean : FsOp → Fs → Prop
  | .writeRaw name data, s => s.WriteClean name data
  | .write name text, s => s.WriteClean name (cstr text)
  | .append name text, s => s.WriteClean name ((s.reads name).getD [] ++ cstr text)
  | _, _ => True

theorem Quiet.writeClean {s t : Fs} (h : Quiet s t) (name data : List UInt8) :
    t.WriteClean name data ↔ s.WriteClean name data := by
  simp only [Fs.WriteClean, h.fsReady, h.fileOrAbsent, h.strands]

theorem Fs.WriteClean.safe {s : Fs} (hg : s.dev.Good) {name data : List UInt8}
    (h : s.WriteClean name data) : s.WriteSafe name data := by
  intro hopen hlen
  obtain ⟨hfile, hroom⟩ := h hopen.1 hlen
  exact writeSafe_of_not_strands hg hfile hroom hopen hlen

/-- On a device whose transfers succeed, a clean call is safe. -/
theorem FsOp.Clean.safe {s : Fs} (hs : s.AtDir) (hg : s.dev.Good) {op : FsOp} (h : op.Clean s) :
    op.Safe s := by
  cases op with
  | writeRaw name data => exact Fs.WriteClean.safe hg h
  | write name text => exact Fs.WriteClean.safe hg h
  | append name text =>
    have hq := appendState_quiet hs name text
    refine Fs.WriteClean.safe (hq.good hg) ?_
    rw [hq.writeClean, appended_eq]
    exact h
  | remove name => exact fun _ _ _ _ => hg.runs _
  | rmdir name => exact fun _ _ _ _ _ _ _ => hg.runs _
  | _ => trivial

/-- The invariant of the runs. That the device answers is part of it: a step changes
what is on the disk and never how it answers. -/
structure GoodTree (s : Fs) : Prop extends TreeOk s where
  good : s.dev.Good

theorem GoodTree.step {s : Fs} (h : GoodTree s) {op : FsOp} (hc : op.Clean s) :
    GoodTree (op.step s) := by
  have hsafe := FsOp.Clean.safe h.dir.atDir h.good hc
  refine ⟨h.toTreeOk.step hsafe, fun n => ?_⟩
  rw [h.toTreeOk.step_ok hsafe, h.good n]

/-- The driver as mounted on the volume it formatted. -/
theorem goodTree_fresh {d : Device} (hg : d.Good) (hf : d.Formats) :
    GoodTree (fsInit (Fs.boot d)) := by
  obtain ⟨⟨new, hw, -⟩, h0, -, -, hready⟩ := fsInit_fresh d hf
  exact ⟨(fsInit_empty hf (hready hg)).treeOk h0, hw.good hg⟩

/-- **The tree over a run.** -/
theorem goodTree_run {d : Device} (hg : d.Good) (hf : d.Formats) {ops : List FsOp}
    (h : Along FsOp.step (fun s op => op.Clean s) (fsInit (Fs.boot d)) ops) :
    GoodTree (run FsOp.step (fsInit (Fs.boot d)) ops) :=
  run_invariant (P := GoodTree) (fun _ _ ht hc => ht.step hc) (goodTree_fresh hg hf) h

/-- **Every directory entry leads to a directory**, in every state such a run reaches:
after any sequence of calls, each of which is clean in the state it meets. -/
theorem dirsOk_run {d : Device} (hg : d.Good) (hf : d.Formats) {ops : List FsOp}
    (h : Along FsOp.step (fun s op => op.Clean s) (fsInit (Fs.boot d)) ops) :
    DirsOk (run FsOp.step (fsInit (Fs.boot d)) ops).volume :=
  (goodTree_run hg hf h).dirs

/-- One byte written to the name of a directory. -/
theorem not_dirsOk_run :
    blankDisk.Good ∧ blankDisk.Formats ∧
    ¬ DirsOk (run FsOp.step (fsInit (Fs.boot blankDisk))
      [.mkdir [0x44], .writeRaw [0x44] [0x78]]).volume := by
  refine ⟨blankDisk_good, blankDisk_formats, fun h => ?_⟩
  have hd := h (d := 0) (i := 0) ⟨.root, by decide, by decide +kernel⟩ (by decide +kernel)
  exact absurd hd.dot (by decide +kernel)

/-- A directory, a file next to it, and into the directory. -/
theorem dirsOk_run_fresh :
    DirsOk (run FsOp.step (fsInit (Fs.boot blankDisk))
      [.mkdir [0x44], .writeRaw [0x46] [1, 2, 3], .chdir [0x44], .touch [0x47]]).volume := by
  have hnone : ((FsOp.mkdir [0x44]).step (fsInit (Fs.boot blankDisk))).seek [0x46] =
      ⟨none, some 1⟩ := by decide +kernel
  have hclean : Along FsOp.step (fun s op => op.Clean s) (fsInit (Fs.boot blankDisk))
      [.mkdir [0x44], .writeRaw [0x46] [1, 2, 3], .chdir [0x44], .touch [0x47]] := by
    refine ⟨trivial, fun _ _ => ⟨fun i hi => ?_, ?_⟩, trivial, trivial, trivial⟩
    · rw [hnone] at hi
      exact absurd hi (by simp)
    · rintro ⟨-, -, i, hi, -⟩
      rw [hnone] at hi
      exact absurd hi (by simp)
  exact @dirsOk_run _ blankDisk_good blankDisk_formats _ hclean

end OsU
