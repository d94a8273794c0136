import OsU.Lib.Runs
import OsU.Proof.FailedCd
import OsU.Proof.TreeOps

/-!
# The driver is a store of files by path

A call of the driver is a command to the store: names are what the encoder makes of them, and a path
is a way from the root or from the working directory (`FsOp.toTree`). Whatever the calls since the
volume was formatted, as long as the store allows them, the driver answers what the store answers,
and what is on the volume is the store.

The listings and `fs_getcwd` are calls of a run like the others, but their answers are not compared
(`FsOp.reply`): a listing has an order, which the store has not, and the path string is cut off when
it is full, so that it need not name the working directory any more.
-/

set_option autoImplicit false

namespace OsU

open Runs

/-! ## Commands -/

/-- A path without a slash before it. -/
def relativeWay (path : List UInt8) : Way FatName :=
  if cstr path = [0x2E, 0x2E] then .up else .down (fatName path)

/-- Where `fs_chdir` starts, and the way from there. -/
def pathWay (path : List UInt8) : Bool × Way FatName :=
  if path.headD 0 = 0x2F then
    (true, if path.tail.headD 0 = 0 then .stay else relativeWay path.tail)
  else (false, relativeWay path)

namespace FsOp

/-- The command that a call is. A text ends at its zero, and a name is what the encoder
makes of it: two names with the same encoding are one name of the store. -/
def toTree : FsOp → TreeOp FatName
  | touch name => .touch (fatName name)
  | remove name => .remove (fatName name)
  | writeRaw name data => .put (fatName name) data
  | write name text => .put (fatName name) (cstr text)
  | append name text => .append (fatName name) (cstr text)
  | readPtr name => .get (fatName name)
  | listEntry _ => .look
  | mkdir name => .mkdir (fatName name)
  | rmdir name => .rmdir (fatName name)
  | chdir path => .cd (pathWay path).1 (pathWay path).2
  | getcwd => .look
  | isDir name => .isDir (fatName name)
  | listDirEntry _ => .look

/-- What the caller learns: the bytes, whether it is a directory, or whether the call failed. What
the two listings and `fs_getcwd` say is left out. The store has no order of its entries, and the path
string may be too short for its path; of these calls only what they leave behind is compared. -/
def reply : FsOp → Fs → Reply
  | readPtr name, s => .content (s.reads name)
  | isDir name, s => .status ((fsIsDir name s).1 = 1)
  | listEntry _, _ | listDirEntry _, _ | getcwd, _ => .unsaid
  | op, s => .status ((op.exec s).1 = 0)

end FsOp

/-! ## Another working directory -/

/-- The driver in directory `c`, with any path string. -/
def Fs.goto (s : Fs) (c : Nat) (path : List UInt8) : Fs :=
  { s with currentDirCluster := c, currentPath := path }

theorem Fs.Sound.goto {s : Fs} (hs : s.Sound) {c : Nat} (hc : IsDir s.volume c)
    (path : List UInt8) : (s.goto c path).Sound :=
  ⟨hs.good, hs.ready, hc, hs.volume⟩

theorem Pictures.goto {s : Fs} {t : FileTree FatName} (ht : Pictures s t) {q : List FatName}
    {c : Nat} (hq : s.volume.links.node 0 q = some (.dir c)) (path : List UInt8) :
    Pictures (s.goto c path) { t with cwd := q } :=
  ⟨ht.node, hq, ht.free⟩

section Calls

variable {s : Fs} (hs : s.Sound) {t : FileTree FatName} (ht : Pictures s t)

include hs ht

theorem Settles.goto {r : Int × Fs} {q : List FatName} {c : Nat} {path : List UInt8} (h0 : r.1 = 0)
    (hq : s.volume.links.node 0 q = some (.dir c)) (h : Quiet (s.goto c path) r.2) :
    Settles t r (some { t with cwd := q }) where
  code := iff_of_true h0 rfl
  sound := h.sound (hs.goto (hs.volume.isDir hq) path)
  pictures := h.pictures (ht.goto hq path)

/-- The second entry of a directory leads to the one it was reached from. -/
theorem Pictures.parent (h0 : s.currentDirCluster ≠ 0) :
    s.volume.links.node 0 t.cwd.dropLast =
      some (.dir (s.volume.slot s.currentDirCluster 1).fstClusLo) := by
  have hcwd := ht.cwd
  rcases t.cwd.eq_nil_or_concat with hq | ⟨q, f, hq⟩
  · rw [hq, Linkage.node_nil, Option.some.injEq, Link.dir.injEq] at hcwd
    exact absurd hcwd.symm h0
  · rw [List.concat_eq_append] at hq
    rw [hq] at hcwd ⊢
    obtain ⟨d, hd, hl⟩ := Linkage.node_snoc_eq_some.mp hcwd
    obtain ⟨i, -, hsub, -⟩ := hs.volume.place hd hl
    obtain ⟨-, -, -, -, hclus⟩ := DirsOk.subDir hs.volume.dirs (hs.volume.isDir hd) hsub
    rw [List.dropLast_concat, hd, hclus]

omit ht in
/-- A relative path leads somewhere when it is `..` or a directory's name. -/
theorem chdirRelative_ok_iff (path : List UInt8) :
    (chdirRelative path s).1 = 0 ↔ cstr path = [0x2E, 0x2E] ∨
      ∃ i, (s.seek path).idx = some i ∧ (s.volume.slot s.currentDirCluster i).isDir = true := by
  constructor
  · intro h0
    rcases chdirRelative_cases hs.dir.atDir path with
      hr | ⟨-, ⟨hup, -⟩ | ⟨hup, -⟩ | ⟨i, hi, hdir, -⟩⟩
    · exact absurd h0 hr.code
    · exact Or.inl hup
    · exact Or.inl hup
    · exact Or.inr ⟨i, hi, hdir⟩
  · intro h
    rw [chdirRelative]
    by_cases hup : cstr path = [0x2E, 0x2E]
    · rw [if_pos hup]
      split
      · rfl
      · rcases currentDirEntries_cases hs.dir.atDir with ⟨-, u, he, -⟩ | ⟨hno, -⟩
        · rw [he]
          rfl
        · exact absurd (hs.good.runs _) hno
    · rw [if_neg hup]
      obtain ⟨i, hi, hdir⟩ := h.resolve_left hup
      obtain ⟨hf, -, he, hl⟩ := hs.opens (valid_of_found hi)
      have hent := hl.ent i (seek_found hi).2.slot_lt
      simp only [hf, hi, he, hent, hdir, Bool.true_eq_false, if_false]

theorem chdirRelative_settles (path : List UInt8) :
    Settles t (chdirRelative path s) (t.walk (relativeWay path)) := by
  have hok := chdirRelative_ok_iff hs path
  have hcases := chdirRelative_cases hs.dir.atDir path
  rw [relativeWay]
  by_cases hup : cstr path = [0x2E, 0x2E]
  · rw [if_pos hup, FileTree.walk]
    -- `..` in the root, where it stays; below it; or a name that is found, which `..`
    -- is not.
    rcases hcases with hr | ⟨h0, ⟨-, hroot, hq⟩ | ⟨-, hsub, hq⟩ | ⟨i, hi, -, -⟩⟩
    · exact absurd (hok.mpr (Or.inl hup)) hr.code
    · have hnil : t.cwd = [] := hs.volume.treeLike _ _ _ ht.cwd (by rw [hroot]; rfl)
      have ht' : t = { t with cwd := t.cwd.dropLast } := by
        rw [hnil]
        cases t
        cases hnil
        rfl
      rw [← ht']
      exact .kept hs ht h0 hq
    · exact .goto hs ht h0 (ht.parent hs hsub) hq
    · have hname := (isSome_fatNameFromInput_iff path).mp (valid_of_found hi)
      rw [hup] at hname
      have hdots := (isSome_fatNameFromInput_iff [0x2E, 0x2E]).mpr hname
      exact absurd hdots (by decide)
  · -- Any other path leads somewhere only when a directory has the name.
    have hnot : (∀ i, (s.seek path).idx = some i →
        (s.volume.slot s.currentDirCluster i).isDir = false) →
        Settles t (chdirRelative path s) none := by
      intro hno
      rcases hcases with hr | ⟨h0, -⟩
      · exact .refused hs ht hr
      · obtain ⟨i, hi, hdir⟩ := (hok.mp h0).resolve_left hup
        rw [hno i hi] at hdir
        cases hdir
    rw [if_neg hup]
    rcases hn : fatName path with _ | f
    · rw [FileTree.walk]
      refine hnot fun i hi => ?_
      rw [Fs.seek, fatName_eq_none.mp hn] at hi
      cases hi
    · rw [FileTree.walk]
      rcases scan83 s hn with ⟨i, hi, hfound⟩ | ⟨i, hsk, hoff⟩ | ⟨hsk, -, hnone⟩
      · by_cases hdir : (s.volume.slot s.currentDirCluster i).isDir = true
        · rw [ht.directory hfound hdir]
          have h0 := hok.mpr (Or.inr ⟨i, hi, hdir⟩)
          rcases hcases with hr | ⟨-, ⟨hup', -⟩ | ⟨hup', -⟩ | ⟨j, hj, -, hq⟩⟩
          · exact absurd h0 hr.code
          · exact absurd hup' hup
          · exact absurd hup' hup
          · obtain rfl : i = j := Option.some.inj (hi.symm.trans hj)
            refine .goto hs ht h0 ?_ hq
            rw [Linkage.node_snoc_dir ht.cwd, links_found hfound, Volume.linkOf, if_pos hdir]
        · rw [ht.file hfound (Bool.eq_false_iff.mpr hdir)]
          refine hnot fun j hj => ?_
          obtain rfl : i = j := Option.some.inj (hi.symm.trans hj)
          exact Bool.eq_false_iff.mpr hdir
      · rw [ht.here_none hoff.absent]
        exact hnot fun j hj => by
          rw [hsk] at hj
          cases hj
      · rw [ht.here_none hnone]
        exact hnot fun j hj => by
          rw [hsk] at hj
          cases hj

/-! ## `fs_chdir` and `fs_is_dir` -/

theorem chdir_settles (path : List UInt8) :
    Settles (t.start (pathWay path).1) (fsChdir path s)
      ((t.start (pathWay path).1).walk (pathWay path).2) := by
  rw [pathWay]
  rcases fsChdir_cases hs.ready path with ⟨habs, hend, he⟩ | ⟨habs, hmore, he⟩ | ⟨hrel, he⟩
  · rw [if_pos habs, he]
    simp only [if_pos hend]
    exact .kept (hs.goto .root _) (ht.goto rfl _) rfl (Quiet.refl s.atRoot)
  · rw [if_pos habs, he]
    simp only [if_neg hmore]
    exact chdirRelative_settles (hs.goto .root _) (ht.goto rfl _) path.tail
  · rw [if_neg hrel, he]
    exact chdirRelative_settles hs ht path

omit hs ht in
/-- `fs_getcwd` may set the path string. -/
theorem fsGetcwd_eq (s : Fs) :
    (fsGetcwd s).2 = s.goto s.currentDirCluster (fsGetcwd s).2.currentPath := by
  simp only [fsGetcwd]
  split <;> rfl

theorem isDir_iff (name : List UInt8) :
    (fsIsDir name s).1 = 1 ↔ ((fatName name).bind t.here).any Node.isDir = true := by
  have hready : ¬ s.fsReady = false := by simp [hs.ready]
  rw [fsIsDir, if_neg hready]
  rcases hn : fatName name with _ | f
  · have hinv : validName name ≠ true := by
      rw [not_valid_of_fatName hn]
      exact Bool.false_ne_true
    obtain ⟨-, -, ⟨hv, -⟩ | ⟨-, hno⟩⟩ := open_cases hs.dir.atDir name
    · exact absurd hv hinv
    · refine iff_of_false ?_ (by simp)
      rcases hno with hno | hno
      · simp [hno]
      · simp only [hno, if_true]
        split <;> simp
  · obtain ⟨hf, -, he, hl⟩ := hs.opens (valid_of_fatName hn)
    rw [Option.bind_some]
    simp only [hf, he, Bool.true_eq_false, if_false]
    rcases scan83 s hn with ⟨i, hi, hfound⟩ | ⟨i, hsk, hoff⟩ | ⟨hsk, -, hnone⟩
    · simp only [hi, hl.ent i hfound.slot_lt]
      by_cases hdir : (s.volume.slot s.currentDirCluster i).isDir = true
      · rw [if_pos hdir, ht.directory hfound hdir]
        exact iff_of_true rfl rfl
      · rw [if_neg hdir, ht.file hfound (Bool.eq_false_iff.mpr hdir)]
        exact iff_of_false (by decide) Bool.false_ne_true
    · rw [hsk, ht.here_none hoff.absent]
      exact iff_of_false (by simp) (by simp)
    · rw [hsk, ht.here_none hnone]
      exact iff_of_false (by simp) (by simp)

/-! ## Steps and runs -/

/-- **A call that the store allows is the command.** The answers agree, the volume is
sound again, and it is the store after the command. -/
theorem step_refines {op : FsOp} (hop : t.Allows fsLimits op.toTree) :
    op.reply s = (t.exec fsLimits op.toTree).1 ∧ (op.step s).Sound ∧
      Pictures (op.step s) (t.exec fsLimits op.toTree).2 := by
  -- A call that returns a status, and one that changes nothing: each call is one of the
  -- two.
  have hsettle : ∀ {u : FileTree FatName} {o : Option (FileTree FatName)},
      Settles u (op.exec s) o → Reply.status (decide ((op.exec s).1 = 0)) = (u.settle o).1 ∧
        (op.step s).Sound ∧ Pictures (op.step s) (u.settle o).2 := by
    intro u o h
    refine ⟨congrArg Reply.status ?_, h.sound, h.pictures⟩
    rw [Bool.eq_iff_iff, decide_eq_true_iff]
    exact h.code
  have hquiet : Quiet s (op.step s) → (op.step s).Sound ∧ Pictures (op.step s) t :=
    fun hq => ⟨hq.sound hs, hq.pictures ht⟩
  cases op with
  | touch name => exact hsettle (touch_settles hs ht name)
  | remove name => exact hsettle (remove_settles hs ht hop)
  | writeRaw name data =>
    exact hsettle (write_settles hs ht data (fun f hf => (hop f hf).1) fun f hf => (hop f hf).2)
  | write name text =>
    exact hsettle (write_settles hs ht _ (fun f hf => (hop f hf).1) fun f hf => (hop f hf).2)
  | append name text =>
    exact hsettle (append_settles hs ht text (fun f hf => (hop f hf).1) fun f hf => (hop f hf).2)
  | readPtr name =>
    exact ⟨congrArg Reply.content (ht.reads_eq hs name hop),
      hquiet (fsReadPtr_quiet hs.dir.atDir name)⟩
  | listEntry index => exact ⟨rfl, hquiet (listCurrent_quiet hs.dir.atDir skipDots index)⟩
  | mkdir name => exact hsettle (mkdir_settles hs ht name)
  | rmdir name => exact hsettle (rmdir_settles hs ht name)
  | chdir path => exact hsettle (chdir_settles hs ht path)
  | getcwd =>
    refine ⟨rfl, ?_⟩
    rw [show FsOp.getcwd.step s = (fsGetcwd s).2 from rfl, fsGetcwd_eq]
    exact ⟨hs.goto hs.dir _, ht.goto ht.cwd _⟩
  | isDir name =>
    refine ⟨congrArg Reply.status ?_, hquiet (fsIsDir_quiet hs.dir.atDir name)⟩
    rw [Bool.eq_iff_iff, decide_eq_true_iff]
    exact isDir_iff hs ht name
  | listDirEntry index => exact ⟨rfl, hquiet (listCurrent_quiet hs.dir.atDir skipDotNames index)⟩

end Calls

/-- The store of a volume just formatted. -/
def formatted : FileTree FatName := .new fsMaxFiles fatClusterCount

/-- A call, on the store. -/
def FsOp.treeStep (op : FsOp) (t : FileTree FatName) : FileTree FatName :=
  (t.exec fsLimits op.toTree).2

theorem Volume.Empty.links_eq_none {v : Volume} (h : v.Empty) (f : FatName) :
    v.links 0 f = none := by
  rw [OsU.links_eq_none]
  exact fun i hi => hi.live.1 (Or.inl (h.root i))

theorem Volume.Empty.sound {v : Volume} (h : v.Empty) : v.Sound where
  chains := h.chainsOk
  dirs := h.dirsOk
  wf := by
    intro d hd
    obtain rfl := h.isDir hd
    have hvac : ∀ j, (v.slot 0 j).Vacant := fun j => Or.inl (h.root j)
    refine ⟨fun _ k _ _ _ hl => hl.1 (hvac k), fun j _ _ _ hl => ?_, fun j _ hl => ?_⟩
    · exact absurd (hvac j) hl.1
    · exact absurd (hvac j) hl.1
  short := by
    intro d i hd _ hv
    obtain rfl := h.isDir hd
    exact absurd (Or.inl (h.root i)) hv

/-- The driver, once it has formatted the disk. -/
theorem formatted_pictures {d : Device} (hg : d.Good) (hf : d.Formats) :
    (fsInit (Fs.boot d)).Sound ∧ Pictures (fsInit (Fs.boot d)) formatted := by
  obtain ⟨⟨new, hw, -⟩, hcwd, -, -, hready⟩ := fsInit_fresh d hf
  have hempty := fsInit_empty hf (hready hg)
  generalize fsInit (Fs.boot d) = s at hw hcwd hready hempty ⊢
  -- Nothing is in the root, so no path leads anywhere but the empty one.
  have hnode : ∀ q, s.volume.links.node 0 q = if q = [] then some (.dir 0) else none := by
    intro q
    induction q using List.reverseRecOn with
    | nil => rfl
    | append_singleton q f ih =>
      rw [Linkage.node_snoc, ih, if_neg (List.concat_ne_nil f q)]
      split
      · exact hempty.links_eq_none f
      · rfl
  refine ⟨⟨hw.good hg, hready hg, ?_, hempty.sound⟩, fun q => ?_, ?_, ?_⟩
  · rw [hcwd]
    exact .root
  · rw [hnode]
    by_cases hq : q = []
    · have hvac : s.volume.vacant 0 = fsMaxFiles := by
        have hall : ∀ j ∈ Finset.range (maxEntries 0), (s.volume.slot 0 j).Vacant :=
          fun j _ => Or.inl (hempty.root j)
        rw [Volume.vacant, Finset.filter_true_of_mem hall]
        exact Finset.card_range _
      simp only [formatted, FileTree.new, hq, if_true, Option.map_some, Volume.asNode, hvac]
      rw [chainCard_of_not_inRange not_inRange_zero]
    · simp only [formatted, FileTree.new, if_neg hq, Option.map_none]
  · rw [hcwd]
    rfl
  · have hall : freeClusters (fatGet s.fatBuf) = Finset.Icc fatClusterMin fatClusterMax :=
      Finset.filter_true_of_mem fun c hc => hempty.fat c (Finset.mem_Icc.mp hc).1
    rw [hall, Nat.card_Icc]
    rfl

/-- The store allows every call of a run, in the state it is in when the call comes. -/
def Allowed (t : FileTree FatName) (ops : List FsOp) : Prop :=
  Along FsOp.treeStep (fun t op => t.Allows fsLimits op.toTree) t ops

instance (t : FileTree FatName) (ops : List FsOp) : Decidable (Allowed t ops) :=
  inferInstanceAs (Decidable (Along _ _ _ _))

/-- The store after a run since the format. -/
def storeAfter (ops : List FsOp) : FileTree FatName := run FsOp.treeStep formatted ops

section Runs

variable {d : Device} (hg : d.Good) (hf : d.Formats)

include hg hf

/-- A run that the store allows: the answers, and the states. -/
theorem run_refines {ops : List FsOp} (h : Allowed formatted ops) :
    outputs FsOp.step FsOp.reply (fsInit (Fs.boot d)) ops =
        outputs FsOp.treeStep (fun op t => (t.exec fsLimits op.toTree).1) formatted ops ∧
      (run FsOp.step (fsInit (Fs.boot d)) ops).Sound ∧
      Pictures (run FsOp.step (fsInit (Fs.boot d)) ops) (storeAfter ops) := by
  exact outputs_refinement (R := fun s t => s.Sound ∧ Pictures s t)
    (fun _ _ _ hst hop => step_refines hst.1 hst.2 hop) h (formatted_pictures hg hf)

/-- **The driver is a store of files by path.** After it has formatted a disk whose transfers
succeed, it answers every sequence of calls that the store allows as the store does, and what is
then on the volume is the store. -/
theorem fs_refines_tree {ops : List FsOp} (h : Allowed formatted ops) :
    outputs FsOp.step FsOp.reply (fsInit (Fs.boot d)) ops =
        outputs FsOp.treeStep (fun op t => (t.exec fsLimits op.toTree).1) formatted ops ∧
      Pictures (run FsOp.step (fsInit (Fs.boot d)) ops) (storeAfter ops) := by
  obtain ⟨hout, -, ht⟩ := run_refines hg hf h
  exact ⟨hout, ht⟩

/-- **What was written stays.** A file that was written reads back its bytes after any calls that
the store allows and that are about other paths, once the working directory is the same. -/
theorem write_stays {ops more : List FsOp} {name data : List UInt8}
    (h : Allowed formatted (ops ++ .writeRaw name data :: more))
    (hwrite : (fsWriteRaw name data (run FsOp.step (fsInit (Fs.boot d)) ops)).1 = 0)
    (haway : Along FsOp.treeStep (fun t op => ∀ f ∈ fatName name,
      t.aim op.toTree ≠ some ((storeAfter ops).cwd ++ [f]))
      (storeAfter (ops ++ [.writeRaw name data])) more)
    (hback : (storeAfter (ops ++ .writeRaw name data :: more)).cwd = (storeAfter ops).cwd) :
    (run FsOp.step (fsInit (Fs.boot d)) (ops ++ .writeRaw name data :: more)).reads name =
      some data := by
  obtain ⟨hops, hop, -⟩ := along_append.mp h
  obtain ⟨-, hs, ht⟩ := run_refines hg hf hops
  obtain ⟨-, hs', ht'⟩ := run_refines hg hf h
  generalize run FsOp.step (fsInit (Fs.boot d)) ops = s at hs ht hwrite
  change ∀ f ∈ fatName name, _ at hop
  -- The write is a command that the store took, so the file is in it.
  have hset := write_settles hs ht data (fun f hf => (hop f hf).1) fun f hf => (hop f hf).2
  obtain ⟨t', hput⟩ := Option.isSome_iff_exists.mp (hset.code.mp hwrite)
  have hstep : storeAfter (ops ++ [.writeRaw name data]) =
      ((fatName name).bind fun f => (storeAfter ops).put fsLimits f data).getD (storeAfter ops) := by
    rw [storeAfter, run_append]
    rfl
  rw [hput, Option.getD_some] at hstep
  obtain ⟨f, hn, hput⟩ := Option.bind_eq_some_iff.mp hput
  have hfile : (storeAfter (ops ++ .writeRaw name data :: more)).node ((storeAfter ops).cwd ++ [f]) =
      some (.file data (fsLimits.blocks data.length)) := by
    have hsplit : ops ++ FsOp.writeRaw name data :: more =
        (ops ++ [.writeRaw name data]) ++ more := by simp
    rw [hsplit, storeAfter, run_append]
    -- By induction over the calls that follow: one about another path leaves the file.
    refine run_invariant (P := fun u => u.node ((storeAfter ops).cwd ++ [f]) =
      some (.file data (fsLimits.blocks data.length))) (fun u op hu hq => ?_) ?_ haway
    · exact FileTree.exec_file hu (hq f hn)
    · rw [hstep]
      exact FileTree.put_file hput
  have hhere : (storeAfter (ops ++ .writeRaw name data :: more)).here f =
      some (.file data (fsLimits.blocks data.length)) := by
    rw [FileTree.here, hback, hfile]
  -- What the driver reads is what the store has under the name.
  have hcontent := ht'.reads_eq hs' name fun f' hf' k b hdir => by
    obtain rfl : f = f' := Option.some.inj (hn.symm.trans hf')
    rw [hhere] at hdir
    cases hdir
  rw [hcontent, hn, Option.bind_some, FileTree.content, hhere]

end Runs

/-- A directory, and a file in it that is read again after another one has been written. -/
def session : List FsOp :=
  [.mkdir [0x44], .chdir [0x44], .writeRaw [0x41] [1, 2, 3], .writeRaw [0x42] [4], .chdir [0x2F],
    .isDir [0x44], .chdir [0x44], .append [0x41] [5], .readPtr [0x41], .rmdir [0x44]]

theorem session_allowed : Allowed formatted session := by
  decide +kernel

/-- The session on a blank disk. -/
theorem fs_refines_tree_session :
    outputs FsOp.step FsOp.reply (fsInit (Fs.boot blankDisk)) session =
      [.status true, .status true, .status true, .status true, .status true, .status true,
        .status true, .status true, .content (some [1, 2, 3, 5]), .status false] :=
  (fs_refines_tree blankDisk_good blankDisk_formats session_allowed).1.trans (by decide +kernel)

/-- The first file of the session, after the second one was written and the root visited. -/
theorem write_stays_session :
    (run FsOp.step (fsInit (Fs.boot blankDisk)) (session.take 2 ++
      .writeRaw [0x41] [1, 2, 3] :: (session.drop 3).take 4)).reads [0x41] = some [1, 2, 3] :=
  write_stays blankDisk_good blankDisk_formats (by decide +kernel) (by decide +kernel)
    (by decide +kernel) (by decide +kernel)

end OsU
