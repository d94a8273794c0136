import OsU.Proof.EmptyDir
import OsU.Proof.TreeSteps

/-!
# Every call that changes the volume

One after the other, each against the command of the store: touching, writing,
appending, deleting, and making and removing directories.

For each call there are two things to show. Its status is 0 exactly when the store takes
the command, which compares the checks of the driver with those of the store: a name
that can be encoded, a slot of the right kind, room. And what it leaves is the edit that
the command asks for, whose new entry is looked up in the directory again
(`Settles.file`, `Settles.made`, `Settles.delete`).

Two of the checks need more than that. A write that runs out of clusters has given the
old chain back in memory, so what is pictured is kept by a failure only when nothing
spills (`write_fails`), which the store asks of the commands it allows. And removing a
directory asks whether it is empty by the slots, which is the same question as that of
the store only in a volume whose directories have nothing behind their end mark.
-/

set_option autoImplicit false

namespace OsU

/-! ## Names and entries -/

theorem valid_of_fatName {name : List UInt8} {f : FatName} (h : fatName name = some f) :
    validName name = true := by
  rw [validName, fatName_eq_some.mp h]
  rfl

theorem not_valid_of_fatName {name : List UInt8} (h : fatName name = none) :
    validName name = false := by
  rw [validName, fatName_eq_none.mp h]
  rfl

/-- A file without a chain is empty and takes no blocks. This is what `fs_touch` makes.
-/
theorem linkOf_empty {v : Volume} {e : FatDirEntry} (hdir : e.isDir = false)
    (hc : e.fstClusLo = 0) : v.linkOf e = .leaf ([], 0) := by
  rw [Volume.linkOf, if_neg (by simp [hdir]), fileBytes,
    if_pos (Or.inr (by rw [hc]; decide)), hc, chainCard_of_not_inRange not_inRange_zero]

/-- The clusters on a chain are those of its list. -/
theorem chainCard_of_chain {fat : Nat → Nat} {first : Nat} {l : List Nat}
    (h : FatChain fat first l) : chainCard fat first = l.length := by
  have hset : {c | OnChain fat first c} = (l.toFinset : Set Nat) := by
    ext c
    simp [← h.mem_iff c]
  rw [chainCard, hset, Set.ncard_coe_finset, List.toFinset_card_of_nodup h.nodup]

section Calls

variable {s : Fs} (hs : s.Sound)

include hs

/-- A directory's own cluster is taken, and not by an entry in it. -/
theorem Fs.Sound.ownSector : s.OwnSector := by
  intro h0
  have hC := hs.volume.chains
  obtain ⟨p, j, hp, hsub⟩ := hs.dir.cases_sub.resolve_left h0
  have hr := (hs.volume.dirs (hsub.owner hp) hsub.isDir).inRange
  rw [hsub.clus] at hr
  obtain ⟨p, j, ho, hsub, hch, hu⟩ := hC.owned.dir_owner hs.dir hr
  refine ⟨hu, fun i hi howns hon => ?_⟩
  -- The entry would lead to the directory it is in, which no path from the root then reaches.
  obtain ⟨hpd, -⟩ := hC.alone ho ⟨hs.dir, hi, howns⟩ hch hon
  have hfar : ∀ d, IsDir s.volume d → d ≠ s.currentDirCluster := by
    intro d hd
    induction hd with
    | root => exact Ne.symm h0
    | @sub q k c hq hsub' ih =>
      rintro rfl
      obtain ⟨hqp, -⟩ := hC.alone (hsub'.owner hq) ho (hsub'.chain_self hr) hch
      exact ih (hqp.trans hpd)
  exact hfar _ hs.dir rfl

theorem Fs.Sound.dirWf : s.DirWf := hs.volume.wf _ hs.dir

/-- The two looks at the directory that a call with a good name begins with. -/
theorem Fs.Sound.opens {name : List UInt8} (hv : validName name = true) :
    (findEntryInCurrent name s).1 = s.seek name ∧ Quiet s (findEntryInCurrent name s).2 ∧
      (currentDirEntries (findEntryInCurrent name s).2).1 = true ∧
      Loaded s (currentDirEntries (findEntryInCurrent name s).2).2
        (2 * dirReads s.currentDirCluster) := by
  obtain ⟨hq, -, ⟨-, -, hf, he, hl⟩ | ⟨hno, -⟩⟩ := open_cases hs.dir.atDir name
  · exact ⟨hf, hq, he, hl⟩
  · exact absurd ⟨hv, hs.good.runs _⟩ hno

variable {t : FileTree FatName} (ht : Pictures s t)

include ht

theorem Settles.refused {r : Int × Fs} (h : Refused s r) : Settles t r none where
  code := iff_of_false h.code (by simp)
  sound := h.quiet.sound hs
  pictures := h.quiet.pictures ht

/-- A status that is good, and nothing changed. -/
theorem Settles.kept {r : Int × Fs} (h0 : r.1 = 0) (h : Quiet s r.2) : Settles t r (some t) where
  code := iff_of_true h0 rfl
  sound := h.sound hs
  pictures := h.pictures ht

/-- An edit of the slot of a name that got to the volume. The new entry of the store is
read off the volume after the call, so this holds of files and directories alike. -/
theorem Settles.enter {r : Int × Fs} {f : FatName} {i first : Nat} {l ws : List Nat}
    {e : FatDirEntry} (h0 : r.1 = 0) (hd : Done s r.2 True i e first l ws)
    (he : NameEdit s.volume r.2.volume s.currentDirCluster i first l ws f)
    (hmade : ∀ c, SubDir r.2.volume s.currentDirCluster i c →
      DirWf (r.2.volume.slot c) (maxEntries c) ∧ ∀ j < maxEntries c,
        ¬ (r.2.volume.slot c j).Vacant → (r.2.volume.slot c j).Live)
    (hold : ∀ c m, s.volume.links s.currentDirCluster f = some (.dir c) →
      s.volume.links c m = none)
    (hnew : ∀ c m, r.2.volume.links s.currentDirCluster f = some (.dir c) →
      r.2.volume.links c m = none) {x : Option Node} {k n : Nat}
    (hentry : (r.2.volume.links s.currentDirCluster f).map r.2.volume.asNode = x)
    (hvacant : r.2.volume.vacant s.currentDirCluster = k)
    (hfree : (freeClusters (fatGet r.2.fatBuf)).card = n) :
    Settles t r (some (t.enter f x k n)) where
  code := iff_of_true h0 rfl
  sound := by
    refine ⟨fun k => ?_, hd.fsReady.trans hs.ready, ?_, he.sound hs.volume hmade⟩
    · rw [hd.ok]
      exact hs.good k
    · rw [hd.currentDirCluster]
      exact he.isDir_self hs.volume.chains.owned
  pictures := ht.enter hs.volume he hd.currentDirCluster hold hnew hentry hvacant hfree

/-- A file is put into the slot of a name. -/
theorem Settles.file {r : Int × Fs} {f : FatName} {i first : Nat} {l ws : List Nat}
    {e : FatDirEntry} (h0 : r.1 = 0) (hd : Done s r.2 True i e first l ws)
    (hok : EditOk s.volume r.2.volume s.currentDirCluster i first l ws) (hwf : r.2.DirWf)
    (hlive : e.Live) (hname : e.name11 = f.1) (hfile : e.isDir = false)
    (hbefore : (s.volume.slot s.currentDirCluster i).Vacant ∧ t.here f = none ∨
      Found s.volume s.currentDirCluster f.1 i ∧
        (s.volume.slot s.currentDirCluster i).isDir = false)
    {bytes : List UInt8} {blocks n : Nat} (hlink : r.2.volume.linkOf e = .leaf (bytes, blocks))
    (hfree : (freeClusters (fatGet r.2.fatBuf)).card = n) :
    Settles t r (some (t.enter f (some (.file bytes blocks))
      (if t.here f = none then t.vacant - 1 else t.vacant) n)) := by
  have hslot := hd.slot_new trivial
  have hwf' : DirWf (r.2.volume.slot s.currentDirCluster) (maxEntries s.currentDirCluster) := by
    rw [← hd.currentDirCluster]
    exact hwf
  have he : NameEdit s.volume r.2.volume s.currentDirCluster i first l ws f :=
    { hok with
      slot_lt := hd.slot_lt
      wf := hwf'
      before := hbefore.imp And.left And.left
      after := Or.inr (by rw [hslot]; exact ⟨hlive, hname⟩) }
  have hfound : Found r.2.volume s.currentDirCluster f.1 i :=
    hwf'.found_iff.mpr ⟨hd.slot_lt, by rw [hslot]; exact hlive, by rw [hslot]; exact hname⟩
  have hlinks : r.2.volume.links s.currentDirCluster f = some (.leaf (bytes, blocks)) := by
    rw [links_found hfound, hslot, hlink]
  have hcount := he.vacant_add hs.volume
  rw [hslot, if_neg hlive.1] at hcount
  -- No directory comes or goes: the entry is a file's, and what had the name before was
  -- none.
  refine .enter hs ht h0 hd he ?_ ?_ ?_ ?_ ?_ hfree
  · intro c hc
    have hdir := hc.isDir
    rw [hslot, hfile] at hdir
    cases hdir
  · intro c m hl
    obtain ⟨j, hj, hdir, -⟩ := links_eq_dir.mp hl
    rcases hbefore with ⟨-, hnone⟩ | ⟨hf, hfile'⟩
    · rw [ht.here_found hj] at hnone
      cases hnone
    · have hji := (lookup_idx f.length).mpr hj
      rw [(lookup_idx f.length).mpr hf, Option.some.injEq] at hji
      rw [← hji, hfile'] at hdir
      cases hdir
  · intro c m hl
    rw [hlinks] at hl
    cases hl
  · rw [hlinks]
    rfl
  · rw [ht.vacant_eq]
    rcases hbefore with ⟨hv, hnone⟩ | ⟨hf, -⟩
    · rw [if_pos hv] at hcount
      rw [if_pos hnone]
      omega
    · rw [if_neg hf.live.1] at hcount
      rw [if_neg (by rw [ht.here_found hf]; simp)]
      omega

/-! ## `fs_touch` -/

theorem touch_settles (name : List UInt8) :
    Settles t (fsTouch name s) ((fatName name).bind t.touch) := by
  have hO := hs.volume.chains.owned
  rcases hn : fatName name with _ | f
  · have hgo : s.fsReady = false ∨ validName name = false := Or.inr (not_valid_of_fatName hn)
    rw [fsTouch, if_pos hgo]
    exact .refused hs ht (refused (Quiet.refl s) (by decide))
  · have hv := valid_of_fatName hn
    have hgo : ¬ (s.fsReady = false ∨ validName name = false) := by simp [hs.ready, hv]
    obtain ⟨hf, hq, he, hl⟩ := hs.opens hv
    -- The call for a name that can be encoded, on a directory that is loaded: what is
    -- left of it depends on the scan.
    have hcall : fsTouch name s = fsTouch name s := rfl
    conv at hcall => rhs; rw [fsTouch, if_neg hgo]
    simp only [hf, he, Bool.true_eq_false, if_false] at hcall
    rw [Option.bind_some, FileTree.touch]
    rcases scan83 s hn with ⟨i, hi, hfound⟩ | ⟨i, hsk, hoff⟩ | ⟨hsk, hvac, hnone⟩
    · rw [if_pos (by rw [ht.here_found hfound]; simp)]
      rw [hi] at hcall
      exact .kept hs ht (by rw [hcall]) (by rw [hcall]; exact hq)
    · have habs := ht.here_none hoff.absent
      have hpos := hoff.vacant_pos
      rw [if_neg (not_not.mpr habs), if_neg (by rw [ht.vacant_eq]; omega)]
      rw [hsk] at hcall
      change fsTouch name s = flushCurrentDir
        ((currentDirEntries (findEntryInCurrent name s).2).2.setEnt i (touchEntry (nameBytes name)))
        at hcall
      have hp := (hl.pending hoff.slot_lt).setEnt (touchEntry (nameBytes name))
      have hfin := flushCurrentDir_finish (hp.atDir hs.dir.atDir)
      rw [← hcall] at hfin
      obtain ⟨w, -, hw⟩ := hp.wrote
      have hruns := (hw.good hs.good).runs
        (dirSectors ((currentDirEntries (findEntryInCurrent name s).2).2.setEnt i
          (touchEntry (nameBytes name))).currentDirCluster)
      have hd := (hp.finish hs.dir.atDir hfin).1.mono (iff_of_true (Or.inr hruns) trivial)
      have hname := fatName_eq_some.mp hn
      have hname11 : (touchEntry (nameBytes name)).name11 = nameBytes name := by
        rw [nameBytes_eq hn]
        exact touchEntry_name11 hname
      have howns := FatDirEntry.owns_of_name hname (hname11.trans (nameBytes_eq hn))
        (by simp [touchEntry, newEntry]; decide)
      have hfile : (touchEntry (nameBytes name)).isDir = false := by
        simpa [touchEntry, FatDirEntry.isDir] using newEntry_file (nameBytes name)
      have hset := Settles.file hs ht (f := f) (hfin.code.mpr hruns) hd
        (hd.touch_ok hO hs.dir hsk) (fsTouch_dirWf hs.dir.atDir hs.dirWf name) howns.1
        (hname11.trans (nameBytes_eq hn)) hfile (Or.inl ⟨hoff.vacant, habs⟩)
        (linkOf_empty hfile (by simp [touchEntry])) (n := t.free) (by
          rw [hd.toFatEdit.eq, ht.free])
      rwa [if_pos habs] at hset
    · rw [if_neg (not_not.mpr (ht.here_none hnone)), if_pos (by rw [ht.vacant_eq, hvac])]
      rw [hsk] at hcall
      exact .refused hs ht (by rw [hcall]; exact refused hq (by decide))

/-! ## `fs_write_raw` -/

omit hs in
theorem Pictures.held_eq {name : List UInt8} {f : FatName} (hn : fatName name = some f) :
    t.held f = s.oldClusters name := by
  rw [FileTree.held, Fs.oldClusters]
  rcases scan83 s hn with ⟨i, hi, hfound⟩ | ⟨i, hsk, hoff⟩ | ⟨hsk, -, hnone⟩
  · rw [hi, ht.here_found hfound, Volume.linkOf]
    split <;> rfl
  · rw [hsk, ht.here_none hoff.absent]
    rfl
  · rw [hsk, ht.here_none hnone]
    rfl

omit hs in
theorem Pictures.here_ne_none_iff {name : List UInt8} {f : FatName} (hn : fatName name = some f) :
    t.here f ≠ none ↔ ∃ i, (s.seek name).idx = some i := by
  rcases scan83 s hn with ⟨i, hi, hfound⟩ | ⟨i, hsk, hoff⟩ | ⟨hsk, -, hnone⟩
  · exact iff_of_true (by rw [ht.here_found hfound]; simp) ⟨i, hi⟩
  · exact iff_of_false (not_not.mpr (ht.here_none hoff.absent)) (by simp [hsk])
  · exact iff_of_false (not_not.mpr (ht.here_none hnone)) (by simp [hsk])

omit hs in
theorem Pictures.vacant_pos_iff : 0 < t.vacant ↔
    ∃ j < maxEntries s.currentDirCluster, (s.volume.slot s.currentDirCluster j).Vacant := by
  rw [ht.vacant_eq, Volume.vacant, Finset.card_pos]
  constructor
  · rintro ⟨j, hj⟩
    obtain ⟨hr, hv⟩ := Finset.mem_filter.mp hj
    exact ⟨j, Finset.mem_range.mp hr, hv⟩
  · rintro ⟨j, hj, hv⟩
    exact ⟨j, Finset.mem_filter.mpr ⟨Finset.mem_range.mpr hj, hv⟩⟩

omit hs in
theorem Pictures.fileOrAbsent {name : List UInt8} {f : FatName} (hn : fatName name = some f)
    (hfile : t.FileOrNone f) : s.FileOrAbsent name := by
  intro i hi
  obtain ⟨-, hf⟩ := seek_found hi
  rw [nameBytes_eq hn] at hf
  exact ht.isDir_eq_false hf hfile

/-- A write succeeds when the store takes the file. -/
theorem write_code_iff {name : List UInt8} {f : FatName} (hn : fatName name = some f)
    (data : List UInt8) :
    (fsWriteRaw name data s).1 = 0 ↔ (t.put fsLimits f data).isSome = true := by
  have hname : Name83 (cstr name) := (isSome_fatNameFromInput_iff name).mp (valid_of_fatName hn)
  rw [write_ok_iff hs.good hs.ready hs.dir hs.volume.chains name data, ← ht.held_eq hn,
    ← ht.here_ne_none_iff hn, ← ht.vacant_pos_iff, ← ht.free]
  have hput : (t.put fsLimits f data).isSome = true ↔ data.length ≤ 4096 ∧ t.HasSlot f ∧
      (data.length + 511) / 512 ≤ t.free + t.held f := by
    rw [FileTree.put]
    split
    · exact iff_of_true rfl ‹_›
    · exact iff_of_false (by simp) ‹_›
  exact (and_iff_right hname).trans hput.symm

/-- A write that fails leaves what is pictured alone, unless it spills. A failure before
the old chain is given back changes nothing that is pictured. -/
theorem write_fails {name : List UInt8} {f : FatName} (hn : fatName name = some f)
    {data : List UInt8} (hspill : ¬ t.Spills fsLimits f data.length)
    (hcode : (fsWriteRaw name data s).1 ≠ 0) : Settles t (fsWriteRaw name data s) none := by
  have hC := hs.volume.chains
  have hno : ¬ s.Loses name data := by
    rintro ⟨-, hfits, i, e, hslot, hroom, hlost⟩
    have hany := ((writeSlot_isSome_iff s name).mp ⟨i, e, hslot⟩).2
    rw [← ht.here_ne_none_iff hn, ← ht.vacant_pos_iff] at hany
    rw [card_freeAfter (hC.owned.writeSlot_used hs.dir hslot), ← oldClusters_eq hslot,
      ← ht.held_eq hn, ← ht.free] at hroom
    refine hspill ⟨hfits, hany, hroom, hlost.imp (fun hr => ?_) fun ⟨h0, hidx⟩ => ⟨?_, ?_⟩⟩
    · rw [ht.held_eq hn, oldClusters_eq hslot, chainCard, Set.ncard_pos (finite_onChain _ _)]
      exact ⟨_, onChain_self hr⟩
    · by_contra hne
      obtain ⟨j, hj⟩ := (ht.here_ne_none_iff hn).mp hne
      rw [hidx] at hj
      cases hj
    · exact hs.volume.treeLike _ _ _ ht.cwd (by rw [h0]; rfl)
  have hk := fsWriteRaw_kept hs.good hs.dir hC hcode hno
  have hcwd : (fsWriteRaw name data s).2.currentDirCluster = s.currentDirCluster := by
    rcases fsWriteRaw_failed hs.good hs.dir hcode with hr | ⟨i, e, hw, hroom⟩
    · exact hr.quiet.currentDirCluster
    · obtain ⟨-, ws, hd⟩ := fsWriteRaw_full hs.dir.atDir hw hroom
      exact hd.currentDirCluster
  exact ⟨iff_of_false hcode (by simp), hk.sound hs hcwd, hk.pictures hs hcwd ht⟩

theorem write_settles {name : List UInt8} (data : List UInt8)
    (hfile : ∀ f ∈ fatName name, t.FileOrNone f)
    (hspill : ∀ f ∈ fatName name, ¬ t.Spills fsLimits f data.length) :
    Settles t (fsWriteRaw name data s) ((fatName name).bind fun f => t.put fsLimits f data) := by
  have hO := hs.volume.chains.owned
  rcases hn : fatName name with _ | f
  · have hgo : s.fsReady = false ∨ validName name = false ∨ data.length > fsMaxFileSize :=
      Or.inr (Or.inl (not_valid_of_fatName hn))
    rw [fsWriteRaw, if_pos hgo]
    exact .refused hs ht (refused (Quiet.refl s) (by decide))
  · have hcode := write_code_iff hs ht hn data
    have hfa := ht.fileOrAbsent hn (hfile f hn)
    rw [Option.bind_some]
    by_cases h0 : (fsWriteRaw name data s).1 = 0
    · obtain ⟨i, e, l, h⟩ := fsWriteRaw_stored hs.dir.atDir hs.good h0
      -- What is free afterwards, with the clusters of the old file among it.
      have hroom := write_takes hs.good hs.dir hs.volume.chains name data h0
      rw [← ht.held_eq hn, ← ht.free] at hroom
      have hleft := Nat.eq_sub_of_add_eq hroom
      have hput : t.put fsLimits f data = some (t.enter f
          (some (.file data (sectorsFor data.length)))
          (if t.here f = none then t.vacant - 1 else t.vacant)
          (t.free + t.held f - sectorsFor data.length)) := by
        have hsome := hcode.mp h0
        rw [FileTree.put] at hsome ⊢
        split
        · rfl
        · rw [if_neg ‹_›] at hsome
          cases hsome
      obtain ⟨hlive, hname, hfile'⟩ := h.written_live hfa
      rw [h.entry] at hlive hname hfile'
      rw [hput]
      refine .file hs ht h0 h.done (h.editOk hO hs.dir hfa)
        (fsWriteRaw_dirWf hs.dir.atDir hs.dirWf hs.ownSector name data) hlive
        (hname.trans (nameBytes_eq hn)) hfile' ?_ ?_ hleft
      · obtain ⟨-, ⟨hi, hf, rfl⟩ | ⟨-, hoff, -⟩⟩ := writeSlot_cases h.slot
        · rw [nameBytes_eq hn] at hf
          exact Or.inr ⟨hf, hfa i hi⟩
        · rw [nameBytes_eq hn] at hoff
          exact Or.inl ⟨hoff.vacant, ht.here_none hoff.absent⟩
      · rw [Volume.linkOf, if_neg (Bool.eq_false_iff.mp hfile'), h.bytes_eq hO hs.dir hfa, h.clus,
          ← h.length]
        -- An empty file has no first cluster, and none on its chain.
        by_cases hl : l = []
        · rw [hl]
          exact congrArg (fun n => Link.leaf (data, n)) (chainCard_of_not_inRange not_inRange_zero)
        · rw [← chainCard_of_chain (h.done.chain hl)]
    · have hput : t.put fsLimits f data = none := by
        rw [← Option.not_isSome_iff_eq_none]
        exact fun hsome => h0 (hcode.mpr hsome)
      rw [hput]
      exact write_fails hs ht hn (hspill f hn) h0

/-! ## `fs_read_ptr` and `fs_append` -/

/-- A file of the store reads its bytes. -/
theorem Pictures.reads_eq (name : List UInt8) (hfile : ∀ f ∈ fatName name, t.FileOrNone f) :
    s.reads name = (fatName name).bind t.content := by
  rw [OsU.reads_eq hs.dir.atDir hs.good hs.ready]
  rcases hn : fatName name with _ | f
  · have hnone : s.seek name = ⟨none, none⟩ := by rw [Fs.seek, fatName_eq_none.mp hn]
    rw [hnone]
    rfl
  · rw [Option.bind_some, FileTree.content]
    rcases scan83 s hn with ⟨i, hi, hfound⟩ | ⟨i, hsk, hoff⟩ | ⟨hsk, -, hnone⟩
    · rw [hi, ht.file hfound (ht.isDir_eq_false hfound (hfile f hn))]
      rfl
    · rw [hsk, ht.here_none hoff.absent]
      rfl
    · rw [hsk, ht.here_none hnone]
      rfl

theorem append_settles {name : List UInt8} (text : List UInt8)
    (hfile : ∀ f ∈ fatName name, t.FileOrNone f)
    (hspill : ∀ f ∈ fatName name,
      ¬ t.Spills fsLimits f ((t.content f).getD [] ++ cstr text).length) :
    Settles t (fsAppend name text s) ((fatName name).bind fun f =>
      t.put fsLimits f ((t.content f).getD [] ++ cstr text)) := by
  have hq := appendState_quiet hs.dir.atDir name text
  have hdata : ∀ f ∈ fatName name,
      s.appended name text = (t.content f).getD [] ++ cstr text := by
    intro f hf
    rw [appended_eq, ht.reads_eq hs name hfile, hf]
    rfl
  have hput : ((fatName name).bind fun f => t.put fsLimits f (s.appended name text)) =
      (fatName name).bind fun f => t.put fsLimits f ((t.content f).getD [] ++ cstr text) := by
    refine Option.bind_congr fun f hf => ?_
    rw [hdata f hf]
  rw [← hput, fsAppend_eq, if_neg (by simp [hs.ready])]
  -- A file that would be too long is refused by the call before the write, and by the
  -- store within it.
  by_cases hlen : (s.appended name text).length > fsMaxFileSize
  · rw [if_pos hlen]
    have hnone : ((fatName name).bind fun f => t.put fsLimits f (s.appended name text)) = none := by
      rw [Option.bind_eq_none_iff]
      intro f _
      rw [FileTree.put, if_neg]
      rintro ⟨hle, -⟩
      exact absurd hle (Nat.not_le.mpr hlen)
    rw [hnone]
    exact .refused hs ht (refused (fsReadPtr_quiet hs.dir.atDir name) (by decide))
  · rw [if_neg hlen]
    refine write_settles (hq.sound hs) (hq.pictures ht) _ hfile fun f hf => ?_
    rw [hdata f hf]
    exact hspill f hf

/-! ## Deletion -/

/-- The entry of a name is deleted, and a directory that it led to had nothing in it:
otherwise more would be gone from the store than from the slot. -/
theorem Settles.delete {r : Int × Fs} {f : FatName} {i : Nat} {e : FatDirEntry} (h0 : r.1 = 0)
    (hd : Done s r.2 True i e (s.volume.slot s.currentDirCluster i).fstClusLo [] [])
    (he : e.lead = 0xE5) (hwf : r.2.DirWf) {name : List UInt8} (hn : fatName name = some f)
    (hi : (s.seek name).idx = some i)
    (hold : ∀ c m, s.volume.links s.currentDirCluster f = some (.dir c) →
      s.volume.links c m = none) :
    Settles t r (some (t.enter f none (t.vacant + 1) (t.free + t.held f))) := by
  have hO := hs.volume.chains.owned
  obtain ⟨hf, hfound⟩ := seek_found hi
  rw [nameBytes_eq hn] at hfound
  have hslot := hd.slot_new trivial
  have hvac : (r.2.volume.slot s.currentDirCluster i).Vacant := by
    rw [hslot]
    exact Or.inr he
  have hwf' : DirWf (r.2.volume.slot s.currentDirCluster) (maxEntries s.currentDirCluster) := by
    rw [← hd.currentDirCluster]
    exact hwf
  have hedit : NameEdit s.volume r.2.volume s.currentDirCluster i
      (s.volume.slot s.currentDirCluster i).fstClusLo [] [] f :=
    { hd.remove_ok he hO hs.dir hi (Or.inl trivial) with
      slot_lt := hd.slot_lt
      wf := hwf'
      before := Or.inr hfound
      after := Or.inl hvac }
  -- The name is gone: no other slot had it, since names are distinct.
  have hgone : r.2.volume.links s.currentDirCluster f = none := by
    rw [links_eq_none]
    intro j hj
    by_cases hji : j = i
    · rw [hji] at hj
      exact hj.live.1 hvac
    · have hsame := hedit.slot_eq hO hs.dir hj.slot_lt fun h => hji h.2
      have hl := hj.live
      have hname := hj.name11
      rw [hsame] at hl hname
      exact hji (hs.dirWf.distinct j i hj.slot_lt hfound.slot_lt hl hfound.live
        (hname.trans hfound.name11.symm))
  have hcount := hedit.vacant_add hs.volume
  rw [if_pos hvac, if_neg hfound.live.1] at hcount
  refine .enter hs ht h0 hd hedit ?_ hold ?_ ?_ ?_ ?_
  · intro c hc
    exact absurd hc.owns hvac.not_owns
  · intro c m hl
    rw [hgone] at hl
    cases hl
  · rw [hgone]
    rfl
  · rw [ht.vacant_eq]
    exact hcount
  · have hcard := hd.toFatEdit.card_free
    rw [List.length_nil, Nat.add_zero] at hcard
    have ho := hfound.owner (fatName_eq_some.mp hn) hs.dir
    -- All clusters of the chain were in use, so each of them is one more that is free.
    have hused : ∀ c, OnChain (fatGet s.fatBuf) (s.volume.slot s.currentDirCluster i).fstClusLo c →
        fatGet s.fatBuf c ≠ 0 := fun c hc => hO.used ho hc
    rw [ht.held_eq hn, Fs.oldClusters, hi, ht.free]
    exact hcard.trans (card_freeAfter hused)

theorem remove_settles {name : List UInt8} (hfile : ∀ f ∈ fatName name, t.FileOrNone f) :
    Settles t (fsRemove name s) ((fatName name).bind t.remove) := by
  have hrefuse : (s.seek name).idx = none → Settles t (fsRemove name s) none := by
    intro hidx
    rcases fsRemove_spec hs.dir.atDir name with ⟨hr, -⟩ | ⟨i, -, hm, -⟩
    · exact .refused hs ht hr
    · rw [hm.found] at hidx
      cases hidx
  rcases hn : fatName name with _ | f
  · refine hrefuse ?_
    rw [Fs.seek, fatName_eq_none.mp hn]
  · rw [Option.bind_some, FileTree.remove]
    rcases scan83 s hn with ⟨i, hi, hfound⟩ | ⟨i, hsk, hoff⟩ | ⟨hsk, -, hnone⟩
    · rw [if_neg (by rw [ht.here_found hfound]; simp)]
      obtain ⟨h0, hd⟩ := fsRemove_done hs.dir.atDir hs.good hs.ready hi
      refine .delete hs ht h0 hd (by simp [removedEntry])
        (fsRemove_dirWf hs.dir.atDir hs.dirWf name) hn hi fun c m hl => ?_
      have hhere := ht.here_eq f
      rw [hl] at hhere
      exact absurd hhere (hfile f hn _ _)
    · rw [if_pos (ht.here_none hoff.absent)]
      exact hrefuse (by rw [hsk])
    · rw [if_pos (ht.here_none hnone)]
      exact hrefuse (by rw [hsk])

theorem rmdir_settles (name : List UInt8) :
    Settles t (fsRmdir name s) ((fatName name).bind (t.rmdir fsLimits)) := by
  -- The call fails only by being refused, and that changes nothing.
  have hrefuse : (∀ i, ¬ Rmdirs s name i) → Settles t (fsRmdir name s) none := by
    intro hno
    rcases fsRmdir_spec hs.dir.atDir name with ⟨hr, -⟩ | ⟨i, -, hm, -⟩
    · exact .refused hs ht hr
    · exact absurd hm (hno i)
  rcases hn : fatName name with _ | f
  · refine hrefuse fun i hm => ?_
    have hidx := hm.found
    rw [Fs.seek, fatName_eq_none.mp hn] at hidx
    cases hidx
  · rw [Option.bind_some, FileTree.rmdir]
    -- A directory that is empty, one that is not, a file, or no such name.
    rcases scan83 s hn with ⟨i, hi, hfound⟩ | ⟨i, hsk, hoff⟩ | ⟨hsk, -, hnone⟩
    · by_cases hdir : (s.volume.slot s.currentDirCluster i).isDir = true
      · have hsub := hs.volume.subDir hs.dir hfound hdir
        have hempty := hs.volume.empty_iff hs.dir hsub
        rw [ht.directory hfound hdir]
        by_cases hvac : s.volume.vacant (s.volume.slot s.currentDirCluster i).fstClusLo = 14
        · have hm : Rmdirs s name i := ⟨hs.ready, hi, hdir, hempty.mpr hvac, hs.good.runs _⟩
          obtain ⟨h0, hd⟩ := fsRmdir_done hs.dir.atDir hs.good hm
          have hset := Settles.delete hs ht h0 hd (by simp [rmdiredEntry])
            (fsRmdir_dirWf hs.dir.atDir hs.dirWf name) hn hi fun c m hl => by
              obtain ⟨-, -, hdot, hdotdot, -⟩ := DirsOk.subDir hs.volume.dirs hs.dir hsub
              rw [links_found hfound, Volume.linkOf, if_pos hdir] at hl
              cases hl
              have htwo := hsub.two_le
              exact links_eq_none_of_vacant (by omega) hdot hdotdot hvac m
          have hheld : t.held f =
              chainCard s.volume.fat (s.volume.slot s.currentDirCluster i).fstClusLo := by
            rw [FileTree.held, ht.directory hfound hdir]
            rfl
          simp only
          rw [if_pos (show _ = fsLimits.newDir from hvac), ← hheld]
          exact hset
        · simp only
          rw [if_neg (show ¬ _ = fsLimits.newDir from hvac)]
          refine hrefuse fun j hm => ?_
          obtain rfl : i = j := Option.some.inj (hi.symm.trans hm.found)
          exact hvac (hempty.mp hm.empty)
      · rw [ht.file hfound (Bool.eq_false_iff.mpr hdir)]
        refine hrefuse fun j hm => ?_
        obtain rfl : i = j := Option.some.inj (hi.symm.trans hm.found)
        exact hdir hm.isDir
    · rw [ht.here_none hoff.absent]
      refine hrefuse fun j hm => ?_
      have hidx := hm.found
      rw [hsk] at hidx
      cases hidx
    · rw [ht.here_none hnone]
      refine hrefuse fun j hm => ?_
      have hidx := hm.found
      rw [hsk] at hidx
      cases hidx

/-! ## `fs_mkdir` -/

/-- The call succeeds when the store takes the directory. -/
theorem mkdir_code_iff {name : List UInt8} {f : FatName} (hn : fatName name = some f) :
    (fsMkdir name s).1 = 0 ↔ (t.mkdir fsLimits f).isSome = true := by
  have hmkdir : (t.mkdir fsLimits f).isSome = true ↔
      t.here f = none ∧ 0 < t.vacant ∧ 0 < t.free := by
    rw [FileTree.mkdir]
    split
    · exact iff_of_true rfl ‹_›
    · exact iff_of_false (by simp) ‹_›
  rw [hmkdir]
  constructor
  · intro h0
    obtain ⟨i, x, -, hsk, hx, hd, -⟩ := fsMkdir_done hs.good hs.dir hs.volume.chains.owned h0
    obtain ⟨-, hoff⟩ := seek_offered hsk
    rw [nameBytes_eq hn] at hoff
    refine ⟨ht.here_none hoff.absent, ?_, ?_⟩
    · rw [ht.vacant_eq]
      exact hoff.vacant_pos
    · rw [ht.free, Finset.card_pos]
      exact ⟨x, mem_freeClusters.mpr ⟨hx, (hd.fresh x (by simp)).2.resolve_right
        (not_onChain not_inRange_zero)⟩⟩
  · rintro ⟨hhere, hvac, hfree⟩
    have hsk : ∃ i, s.seek name = ⟨none, some i⟩ := by
      rcases scan83 s hn with ⟨i, hi, hfound⟩ | ⟨i, hsk, -⟩ | ⟨-, hfull, -⟩
      · rw [ht.here_found hfound] at hhere
        cases hhere
      · exact ⟨i, hsk⟩
      · rw [ht.vacant_eq, hfull] at hvac
        exact absurd hvac (Nat.lt_irrefl 0)
    obtain ⟨i, hsk⟩ := hsk
    rw [ht.free, Finset.card_pos] at hfree
    obtain ⟨x, hx⟩ := hfree
    obtain ⟨hr, hx0⟩ := mem_freeClusters.mp hx
    -- Of the three outcomes the first two need a failing device or a missing cluster.
    rcases fsMkdir_spec hs.dir.atDir name with
      ⟨-, hno⟩ | ⟨_, _, -, ⟨-, hruns, -⟩ | ⟨u, hp, -, -, -, he⟩⟩
    · exact absurd ⟨hs.ready, hsk, hr, hx0, hs.good.runs _⟩ (hno i x)
    · exact absurd (hs.good.runs _) hruns
    · rw [he]
      exact (hp.settled hs.dir.atDir hs.good (by decide)).1

/-- A call that succeeds has put a new directory into the slot. -/
theorem Settles.made {name : List UInt8} {f : FatName} (hn : fatName name = some f)
    (h0 : (fsMkdir name s).1 = 0) :
    Settles t (fsMkdir name s) (some (t.enter f (some (.dir fsLimits.newDir 1)) (t.vacant - 1)
      (t.free - 1))) := by
  have hO := hs.volume.chains.owned
  have hwf := fsMkdir_dirWf hs.dir.atDir hs.dirWf hs.ownSector name
  obtain ⟨i, x, -, hsk, hx, hd, hsec⟩ := fsMkdir_done hs.good hs.dir hO h0
  rw [Fs.DirWf, hd.currentDirCluster] at hwf
  obtain ⟨hname, hoff⟩ := seek_offered hsk
  have hclus : (mkdirEntry (nameBytes name) x).fstClusLo = x :=
    mkdirEntry_clus _ (Nat.lt_of_le_of_lt (inRange_iff.mp hx).2 (by decide))
  have hname11 := mkdirEntry_name11 hname x
  have howns := FatDirEntry.owns_of_name hname hname11 (by simp [mkdirEntry, newEntry]; decide)
  rw [nameBytes_eq hn] at hoff
  have hslot := hd.slot_new trivial
  have hlive : ((fsMkdir name s).2.volume.slot s.currentDirCluster i).Live := by
    rw [hslot]
    exact howns.1
  have hname' : ((fsMkdir name s).2.volume.slot s.currentDirCluster i).name11 = f.1 := by
    rw [hslot, hname11, nameBytes_eq hn]
  have hedit : NameEdit s.volume (fsMkdir name s).2.volume s.currentDirCluster i 0 [x] [x] f :=
    { hd.mkdir_ok (fun _ => hsec) hO hs.dir hsk with
      slot_lt := hd.slot_lt
      wf := hwf
      before := Or.inl hoff.vacant
      after := Or.inr ⟨hlive, hname'⟩ }
  -- The new directory, as its sector was stored: nothing but its first two entries, and
  -- fourteen slots.
  obtain ⟨hwfx, hshort, hvacx, hnone⟩ := newDir_wf hx hs.dir.lt hsec
  have hlinks : (fsMkdir name s).2.volume.links s.currentDirCluster f = some (.dir x) := by
    rw [links_found (hwf.found_iff.mpr ⟨hd.slot_lt, hlive, hname'⟩), hslot, Volume.linkOf,
      if_pos (mkdirEntry_isDir _ x), hclus]
  have hcount := hedit.vacant_add hs.volume
  rw [if_pos hoff.vacant, if_neg hlive.1] at hcount
  refine .enter hs ht h0 hd hedit ?_ ?_ ?_ ?_ ?_ ?_
  · intro c hc
    have hcx := hc.clus
    rw [hslot, hclus] at hcx
    rw [← hcx]
    exact ⟨hwfx, hshort⟩
  · intro c m hl
    rw [links_eq_none.mpr hoff.absent] at hl
    cases hl
  · intro c m hl
    rw [hlinks] at hl
    cases hl
    exact hnone m
  · have hcard : chainCard (fsMkdir name s).2.volume.fat x = 1 :=
      chainCard_of_chain (hd.chain (by simp))
    rw [hlinks, Option.map_some, Volume.asNode, hvacx, hcard]
    rfl
  · rw [ht.vacant_eq]
    omega
  · have hcard := hd.toFatEdit.card_free
    rw [freeChain_of_not_inRange not_inRange_zero, List.length_singleton] at hcard
    rw [ht.free]
    omega

theorem mkdir_settles (name : List UInt8) :
    Settles t (fsMkdir name s) ((fatName name).bind (t.mkdir fsLimits)) := by
  have hrefuse : (fsMkdir name s).1 ≠ 0 → Settles t (fsMkdir name s) none := by
    intro hcode
    rcases fsMkdir_spec hs.dir.atDir name with
      ⟨hr, -⟩ | ⟨_, _, -, ⟨-, hruns, -⟩ | ⟨u, hp, -, -, -, he⟩⟩
    · exact .refused hs ht hr
    · exact absurd (hs.good.runs _) hruns
    · rw [he] at hcode
      exact absurd (hp.settled hs.dir.atDir hs.good (by decide)).1 hcode
  rcases hn : fatName name with _ | f
  · refine hrefuse ?_
    rw [fsMkdir, if_pos (Or.inr (not_valid_of_fatName hn))]
    exact show (-1 : Int) ≠ 0 by decide
  · have hcode := mkdir_code_iff hs ht hn
    rw [Option.bind_some]
    by_cases h0 : (fsMkdir name s).1 = 0
    · have hsome := hcode.mp h0
      rw [FileTree.mkdir] at hsome ⊢
      split
      · exact .made hs ht hn h0
      · rw [if_neg ‹_›] at hsome
        cases hsome
    · have hnone : t.mkdir fsLimits f = none := by
        rw [← Option.not_isSome_iff_eq_none]
        exact fun hsome => h0 (hcode.mpr hsome)
      rw [hnone]
      exact hrefuse h0

end Calls

end OsU
