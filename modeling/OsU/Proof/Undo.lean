import OsU.Proof.RoundTrip

/-!
# Create, then delete

A name is created in a vacant slot, on clusters that were free. Deleting it frees
exactly those: the new chain is the whole of what the table gained (`FatEdit.undone`),
and the slot is vacant again. Everything else is what an edit leaves alone, twice.

Not every byte of the disk is what it was. The slot has the mark of a deleted entry
where it may have been an end mark before, and the sectors of the new chain keep the
data. So the identity is one of what the driver sees (`Restored`): the table, word for
word, the live entries, and the bytes of the files. An end mark that has gone costs
later scans a slot, and finds nothing that was not there.
-/

set_option autoImplicit false

namespace OsU

/-! ## What is restored -/

/-- The same directories with the same live entries, and files with the same bytes.
Slots without a live entry may differ. -/
structure SameTree (v v' : Volume) : Prop where
  isDir : ∀ d, IsDir v' d ↔ IsDir v d
  entries : ∀ d i, IsDir v d → i < maxEntries d → (v'.slot d i).Live ∨ (v.slot d i).Live →
    v'.slot d i = v.slot d i
  bytes : ∀ d i, Owner v d i → (v.slot d i).isDir = false →
    fileBytes v' (v.slot d i) = fileBytes v (v.slot d i)

/-- The table as well, and no slot has become the end mark. -/
structure Restored (v v' : Volume) : Prop extends SameTree v v' where
  fat : v'.fat = v.fat
  marks : ∀ d i, IsDir v d → i < maxEntries d → (v'.slot d i).lead = 0x00 →
    (v.slot d i).lead = 0x00

theorem SubDir.congr {v v' : Volume} {d i c : Nat} (h : SubDir v d i c)
    (he : v'.slot d i = v.slot d i) : SubDir v' d i c :=
  ⟨h.slot_lt, by rw [he]; exact h.owns, by rw [he]; exact h.isDir, by rw [he]; exact h.clus,
    h.two_le⟩

/-- With the same live entries, the directories are the same. -/
theorem isDir_iff_of_entries {v v' : Volume}
    (h : ∀ d i, IsDir v d → i < maxEntries d → (v'.slot d i).Live ∨ (v.slot d i).Live →
      v'.slot d i = v.slot d i) (d : Nat) : IsDir v' d ↔ IsDir v d := by
  constructor
  · intro hd
    induction hd with
    | root => exact .root
    | sub _ hs ih => exact .sub ih (hs.congr (h _ _ ih hs.slot_lt (Or.inl hs.owns.1)).symm)
  · intro hd
    induction hd with
    | root => exact .root
    | sub hd hs ih => exact .sub ih (hs.congr (h _ _ hd hs.slot_lt (Or.inr hs.owns.1)))

/-- A name that was found is found. -/
theorem Restored.found {v v' : Volume} (h : Restored v v') {d j : Nat} {f11 : List UInt8}
    (hd : IsDir v d) (hf : Found v d f11 j) : Found v' d f11 j := by
  have hslot := h.entries d j hd hf.slot_lt (Or.inr hf.live)
  refine ⟨hf.slot_lt, by rw [hslot]; exact hf.live, by rw [hslot]; exact hf.name11, ?_⟩
  intro k hk
  have hkm : k < maxEntries d := Nat.lt_trans hk hf.slot_lt
  obtain ⟨hmark, hother⟩ := hf.before k hk
  refine ⟨fun hz => hmark (h.marks d k hd hkm hz), ?_⟩
  intro hl
  have hsame := h.entries d k hd hkm (Or.inl hl)
  rw [hsame] at hl ⊢
  exact hother hl

/-- A file that could be read reads the same. -/
theorem Restored.reads {s s' : Fs} (h : Restored s.volume s'.volume) (hg : s.dev.Good)
    (hg' : s'.dev.Good) (hready : s.fsReady = true) (hready' : s'.fsReady = true) {d j : Nat}
    (hd : IsDir s.volume d) {name : List UInt8} (hj : ((s.cd d).seek name).idx = some j)
    (hfile : (s.volume.slot d j).isDir = false) :
    (s'.cd d).reads name = (s.cd d).reads name := by
  obtain ⟨hf, hfound⟩ := seek_found hj
  have had : ∀ t : Fs, (t.cd d).AtDir := fun _ => ⟨hd.dirNo, hd.lt⟩
  have hseek' : ((s'.cd d).seek name).idx = some j := seek_idx_iff.mpr ⟨hf, h.found hd hfound⟩
  rw [reads_eq (had s') hg' hready', reads_eq (had s) hg hready, hj, hseek']
  show some (fileBytes s'.volume (s'.volume.slot d j)) = some (fileBytes s.volume (s.volume.slot d j))
  rw [h.entries d j hd hfound.slot_lt (Or.inr hfound.live), h.bytes d j (hfound.owner hf hd) hfile]

/-! ## Two edits -/

/-- Linking a chain of free clusters and freeing it gives the table back. -/
theorem FatEdit.undone {fat fat₁ fat₂ : Nat → Nat} {l : List Nat} (h₁ : FatEdit fat fat₁ 0 l)
    (h₂ : FatEdit fat₁ fat₂ (l.headD 0) []) : fat₂ = fat := by
  funext c
  by_cases hc : c ∈ l
  · have hchain := h₁.chain (List.ne_nil_of_mem hc)
    rw [h₂.freed c List.not_mem_nil ((hchain.mem_iff c).mp hc)]
    obtain ⟨-, h0 | hon⟩ := h₁.fresh c hc
    · exact h0.symm
    · exact absurd hon (not_onChain not_inRange_zero)
  · have hoff : ¬ OnChain fat₁ (l.headD 0) c := by
      intro hon
      by_cases hl : l = []
      · rw [hl] at hon
        exact not_onChain not_inRange_zero hon
      · exact hc (((h₁.chain hl).mem_iff c).mpr hon)
    rw [h₂.kept c List.not_mem_nil hoff, h₁.kept c hc (not_onChain not_inRange_zero)]

/-- **A new entry, deleted.** -/
theorem EditOk.restored {v v₁ v₂ : Volume} {d i : Nat} {l ws : List Nat}
    (h₁ : EditOk v v₁ d i 0 l ws) (h₂ : EditOk v₁ v₂ d i (l.headD 0) [] []) (hO : Owned v)
    (hvac : (v.slot d i).Vacant) (hdel : (v₂.slot d i).lead = 0xE5) : Restored v v₂ := by
  have hO₁ := h₁.owned hO
  have hstay : ∀ d', IsDir v d' → IsDir v₁ d' := fun d' hd' =>
    h₁.isDir_of hO (fun c hc => absurd hc.owns hvac.not_owns) hd'
  -- away from the slot, both edits leave the directories alone
  have hslot : ∀ d' j, IsDir v d' → j < maxEntries d' → ¬ (d' = d ∧ j = i) →
      v₁.slot d' j = v.slot d' j ∧ v₂.slot d' j = v.slot d' j := by
    intro d' j hd' hj hne
    have hfirst := h₁.slot_eq hO hd' hj hne
    exact ⟨hfirst, (h₂.slot_eq hO₁ (hstay d' hd') hj hne).trans hfirst⟩
  have hentries : ∀ d' j, IsDir v d' → j < maxEntries d' →
      (v₂.slot d' j).Live ∨ (v.slot d' j).Live → v₂.slot d' j = v.slot d' j := by
    intro d' j hd' hj hlive
    by_cases hij : d' = d ∧ j = i
    · obtain ⟨rfl, rfl⟩ := hij
      rcases hlive with hlive | hlive
      · exact absurd (Or.inr hdel) hlive.1
      · exact absurd hvac hlive.1
    · exact (hslot d' j hd' hj hij).2
  refine ⟨⟨isDir_iff_of_entries hentries, hentries, ?_⟩, h₁.toFatEdit.undone h₂.toFatEdit, ?_⟩
  · intro d' j ho hfile
    have hij : ¬ (d' = d ∧ j = i) := by
      rintro ⟨rfl, rfl⟩
      exact ho.owns.1.1 hvac
    have hsame := (hslot d' j ho.dir ho.slot_lt hij).1
    have ho₁ := h₁.owner_of hO ho (hstay d' ho.dir) hij
    have hbytes := h₂.fileBytes_eq hO₁ ho₁ (by rw [hsame]; exact hfile) hij
    rw [hsame] at hbytes
    rw [hbytes, h₁.fileBytes_eq hO ho hfile hij]
  · intro d' j hd' hj hz
    by_cases hij : d' = d ∧ j = i
    · obtain ⟨rfl, rfl⟩ := hij
      rw [hdel] at hz
      exact absurd hz (by decide)
    · rw [← (hslot d' j hd' hj hij).2, hz]

/-! ## The calls, on a device whose transfers succeed -/

/-- An edit that is flushed reaches the volume. -/
theorem Pending.settled {s t : Fs} {i first : Nat} {e : FatDirEntry} {l ws : List Nat}
    (h : Pending s t i e first l ws) (hs : s.AtDir) (hg : s.dev.Good) {err : Int} (herr : err ≠ 0) :
    (commit err t).1 = 0 ∧ Done s (commit err t).2 True i e first l ws ∧
      ∀ c, 2 ≤ c → c ≠ s.currentDirCluster → (commit err t).2.volume.sector c = t.volume.sector c := by
  obtain ⟨w, -, hw⟩ := h.wrote
  have hfin := commit_finish herr (h.atDir hs)
  have h0 : (commit err t).1 = 0 := hfin.code.mpr ((hw.good hg).runs _)
  exact ⟨h0, h.settle hs hfin h0⟩

/-- `fs_remove` on a name that is found. -/
theorem fsRemove_done {s : Fs} (hs : s.AtDir) (hg : s.dev.Good) (hready : s.fsReady = true)
    {name : List UInt8} {i : Nat} (hi : (s.seek name).idx = some i) :
    (fsRemove name s).1 = 0 ∧ Done s (fsRemove name s).2 True i
      (removedEntry (s.volume.slot s.currentDirCluster i))
      (s.volume.slot s.currentDirCluster i).fstClusLo [] [] := by
  rcases fsRemove_spec hs name with ⟨-, hno⟩ | ⟨j, t, hm, hp, -, he⟩
  · exact absurd ⟨hready, hi, hg.runs _⟩ (hno i)
  · obtain rfl : j = i := Option.some.inj (hm.found.symm.trans hi)
    obtain ⟨h0, hdone, -⟩ := hp.settled hs hg (show (-2 : Int) ≠ 0 by decide)
    rw [he]
    exact ⟨h0, hdone⟩

/-- `fs_rmdir` on a directory that looks empty. -/
theorem fsRmdir_done {s : Fs} (hs : s.AtDir) (hg : s.dev.Good) {name : List UInt8} {i : Nat}
    (hm : Rmdirs s name i) :
    (fsRmdir name s).1 = 0 ∧ Done s (fsRmdir name s).2 True i
      (rmdiredEntry (s.volume.slot s.currentDirCluster i))
      (s.volume.slot s.currentDirCluster i).fstClusLo [] [] := by
  rcases fsRmdir_spec hs name with ⟨-, hno⟩ | ⟨j, t, hm', hp, -, he⟩
  · exact absurd hm (hno i)
  · obtain rfl : j = i := Option.some.inj (hm'.found.symm.trans hm.found)
    obtain ⟨h0, hdone, -⟩ := hp.settled hs hg (show (-5 : Int) ≠ 0 by decide)
    rw [he]
    exact ⟨h0, hdone⟩

/-- What `fs_mkdir` did when it returned 0. -/
theorem fsMkdir_done {s : Fs} (hg : s.dev.Good) (hdir : IsDir s.volume s.currentDirCluster)
    (hO : Owned s.volume) {name : List UInt8} (h0 : (fsMkdir name s).1 = 0) :
    ∃ i x, s.fsReady = true ∧ s.seek name = ⟨none, some i⟩ ∧ InRange x ∧
      Done s (fsMkdir name s).2 True i (mkdirEntry (nameBytes name) x) 0 [x] [x] ∧
      (fsMkdir name s).2.volume.sector x = sectorOf (newDir x s.currentDirCluster) 0 := by
  rcases fsMkdir_spec hdir.atDir name with ⟨hr, -⟩ | ⟨i, x, hm, ⟨-, -, hcode, -⟩ | ⟨t, hp, hsec, -, -, he⟩⟩
  · exact absurd h0 hr.code
  · rw [hcode] at h0
    exact absurd h0 (by decide)
  · have hne : x ≠ s.currentDirCluster := by
      rintro rfl
      obtain ⟨_, _, -, -, -, hu⟩ := hO.dir_owner hdir hm.inRange
      exact hu hm.free
    obtain ⟨-, hdone, hother⟩ := hp.settled hdir.atDir hg (show (-6 : Int) ≠ 0 by decide)
    rw [he]
    refine ⟨i, x, hm.ready, hm.slot, hm.inRange, hdone, ?_⟩
    rw [hother x (inRange_iff.mp hm.inRange).1 hne, hsec]

/-- A new entry is found under its name. -/
theorem Done.seek_new {s s' : Fs} {name : List UInt8} {i first : Nat} {e : FatDirEntry}
    {l ws : List Nat} (hd : Done s s' True i e first l ws)
    (hok : EditOk s.volume s'.volume s.currentDirCluster i first l ws) (hO : Owned s.volume)
    (hsk : s.seek name = ⟨none, some i⟩) (hname : e.name11 = nameBytes name) (hattr : e.attr ≠ 0x0F) :
    (s'.seek name).idx = some i := by
  obtain ⟨hf, hoff⟩ := seek_offered hsk
  have hslot := hd.slot_new trivial
  have howns := FatDirEntry.owns_of_name hf hname hattr
  rw [seek_idx_iff, hd.currentDirCluster]
  refine ⟨hf, found_new (fun k hk hki => ?_) (by rw [hslot]; exact howns.1)
    (by rw [hslot, hname]) (Or.inr hoff)⟩
  exact hok.slot_eq hO hok.dir hk fun h => hki h.2

/-- A new directory looks empty. -/
theorem newDir_empty (x p : Nat) : emptyLoop (entryAt (sectorOf (newDir x p) 0).mem) 14 2 = true := by
  have hzero : (entryAt (sectorOf (newDir x p) 0).mem 2).lead = 0x00 := by
    rw [newDir_ent x p (by decide : 2 < 16)]
    rfl
  rw [emptyLoop, if_pos hzero]

theorem mkdirEntry_isDir (f11 : List UInt8) (x : Nat) : (mkdirEntry f11 x).isDir = true := by
  simp [mkdirEntry, newEntry, FatDirEntry.isDir]
  decide

/-- What is left of the driver's state after a call and its opposite: the table, the
entries in use, and what every file of every directory reads. What a vacant slot holds
may differ, and so may the buffers of the scans. -/
structure Undone (s s' : Fs) : Prop where
  fatBuf : s'.fatBuf = s.fatBuf
  volume : Restored s.volume s'.volume
  reads : ∀ d name j, IsDir s.volume d → ((s.cd d).seek name).idx = some j →
    (s.volume.slot d j).isDir = false → (s'.cd d).reads name = (s.cd d).reads name

theorem Restored.undone {s s' : Fs} (h : Restored s.volume s'.volume) (hg : s.dev.Good)
    (hg' : s'.dev.Good) (hready : s.fsReady = true) (hready' : s'.fsReady = true) : Undone s s' where
  fatBuf := fat_ext fun c => congrFun h.fat c
  volume := h
  reads := fun _ _ _ hd hj hfile => h.reads hg hg' hready hready' hd hj hfile

/-- The entry made in a vacant slot, found there and deleted. -/
theorem Done.undone {s s₁ s₂ : Fs} {name : List UInt8} {i : Nat} {e e' : FatDirEntry}
    {l ws : List Nat} (hd : Done s s₁ True i e 0 l ws)
    (hok : EditOk s.volume s₁.volume s.currentDirCluster i 0 l ws) (hg : s.dev.Good)
    (hready : s.fsReady = true) (hO : Owned s.volume)
    (hvac : (s.volume.slot s.currentDirCluster i).Vacant) (hclus : e.fstClusLo = l.headD 0)
    (hfound : (s₁.seek name).idx = some i)
    (hd' : Done s₁ s₂ True i e' (s₁.volume.slot s₁.currentDirCluster i).fstClusLo [] [])
    (hdel : e'.lead = 0xE5) : Undone s s₂ := by
  have hcwd := hd.currentDirCluster
  have hdir₁ : IsDir s₁.volume s₁.currentDirCluster := by
    rw [hcwd]
    exact hok.isDir_self hO
  have hok' := hd'.remove_ok hdel (hok.owned hO) hdir₁ hfound (Or.inl trivial)
  have hgone := hd'.slot_new trivial
  rw [hcwd, hd.slot_new trivial, hclus] at hok'
  rw [hcwd] at hgone
  refine (hok.restored hok' hO hvac (by rw [hgone, hdel])).undone hg ?_ hready ?_
  · intro n
    rw [hd'.ok, hd.ok]
    exact hg n
  · rw [hd'.fsReady, hd.fsReady, hready]

/-- **Create, then delete**: the second call succeeds, and the two are the identity on
the table, on the entries in use and on what every other file reads. A vacant slot need
not hold the bytes it had. -/
theorem create_delete {s : Fs} (hg : s.dev.Good) (hdir : IsDir s.volume s.currentDirCluster)
    (hC : ChainsOk s.volume) {name : List UInt8} (habsent : (s.seek name).idx = none) :
    ((fsMkdir name s).1 = 0 → (fsRmdir name (fsMkdir name s).2).1 = 0 ∧
      Undone s (fsRmdir name (fsMkdir name s).2).2) ∧
    ∀ data, (fsWriteRaw name data s).1 = 0 → (fsRemove name (fsWriteRaw name data s).2).1 = 0 ∧
      Undone s (fsRemove name (fsWriteRaw name data s).2).2 := by
  have hs := hdir.atDir
  have hO := hC.owned
  constructor
  · intro h0
    obtain ⟨i, x, hready, hsk, hx, hd, hsec⟩ := fsMkdir_done hg hdir hO h0
    generalize (fsMkdir name s).2 = s₁ at hd hsec ⊢
    obtain ⟨hf, hoff⟩ := seek_offered hsk
    have hok := hd.mkdir_ok (fun _ => hsec) hO hdir hsk
    have hg₁ : s₁.dev.Good := fun n => by rw [hd.ok]; exact hg n
    have hcwd := hd.currentDirCluster
    have hs₁ : s₁.AtDir := by rw [Fs.AtDir, hcwd]; exact hs
    have hslot : s₁.volume.slot s₁.currentDirCluster i = mkdirEntry (nameBytes name) x := by
      rw [hcwd, hd.slot_new trivial]
    have hclus : (mkdirEntry (nameBytes name) x).fstClusLo = x :=
      mkdirEntry_clus _ (Nat.lt_of_le_of_lt (inRange_iff.mp hx).2 (by decide))
    have hfound := hd.seek_new hok hO hsk (mkdirEntry_name11 hf x)
      (by simp [mkdirEntry, newEntry]; decide)
    -- The new directory is found under its name, and it is empty.
    have hm : Rmdirs s₁ name i := by
      refine ⟨by rw [hd.fsReady, hready], hfound, by rw [hslot, mkdirEntry_isDir], ?_, hg₁.runs _⟩
      rw [hslot, hclus, hsec, newDir_empty]
    obtain ⟨h0', hd'⟩ := fsRmdir_done hs₁ hg₁ hm
    exact ⟨h0', hd.undone hok hg hready hO hoff.vacant hclus hfound hd' (by simp [rmdiredEntry])⟩
  · intro data h0
    obtain ⟨i, e, l, h⟩ := fsWriteRaw_stored hs hg h0
    generalize (fsWriteRaw name data s).2 = s₁ at h ⊢
    have hfile : s.FileOrAbsent name := by
      intro j hj
      rw [habsent] at hj
      cases hj
    have hok := h.editOk hO hdir hfile
    -- The name was absent, so the file was put into the slot that is vacant.
    obtain ⟨hf, ⟨hi, -⟩ | ⟨hsk, hoff, rfl⟩⟩ := writeSlot_cases h.slot
    · rw [habsent] at hi
      cases hi
    · have hd := h.done
      rw [newEntry_clus] at hok hd
      have hhead := writtenEntry_head (newEntry (nameBytes name) fatAttrArchive) (l.headD 0) data.length
      have hready : s.fsReady = true := by rw [← hd.fsReady, h.ready]
      have hs₁ : s₁.AtDir := by rw [Fs.AtDir, hd.currentDirCluster]; exact hs
      have hfound := hd.seek_new hok hO hsk (hhead.name11.trans (newEntry_name11 hf _))
        (by rw [hhead.attr]; simp [newEntry]; decide)
      obtain ⟨h0', hd'⟩ := fsRemove_done hs₁ h.good h.ready hfound
      exact ⟨h0', hd.undone hok hg hready hO hoff.vacant h.clus hfound hd' (by simp [removedEntry])⟩

/-- A directory and a file of three bytes, on the fresh volume. -/
theorem create_delete_fresh :
    Undone freshFs (fsRmdir [0x44] (fsMkdir [0x44] freshFs).2).2 ∧
    Undone freshFs (fsRemove [0x41] (fsWriteRaw [0x41] [1, 2, 3] freshFs).2).2 := by
  have habsent : ∀ name, (freshFs.seek name).idx = none := by
    intro name
    cases hi : (freshFs.seek name).idx with
    | none => rfl
    | some i =>
      obtain ⟨hf, hfound⟩ := seek_found hi
      exact absurd (hfound.owner hf freshFs_isDir) freshFs_empty.not_owner
  have hmkdir : (fsMkdir [0x44] freshFs).1 = 0 := by decide +kernel
  have hwrite : (fsWriteRaw [0x41] [1, 2, 3] freshFs).1 = 0 := by decide +kernel
  exact ⟨((create_delete freshFs_good freshFs_isDir freshFs_empty.chainsOk (habsent _)).1 hmkdir).2,
    ((create_delete freshFs_good freshFs_isDir freshFs_empty.chainsOk (habsent _)).2 _ hwrite).2⟩

end OsU
