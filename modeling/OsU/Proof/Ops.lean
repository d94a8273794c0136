import OsU.Proof.Commit

/-!
# The mutators, inverted

One theorem for each mutator says everything it can do: it changes nothing that lasts,
or it made the pending edit named there and ended with the flushes named there. The
conditions are on the state the operation starts in (`Fs.seek`, `Fs.writeSlot`, the
polls of the device), so the later modules never look inside an operation again.

The five have the same shape: checks, the directory loaded, an edit of the table and of
one entry, two flushes. They differ in the order of these. `fs_mkdir` stores its new
sector before it loads the directory again, in which case the load may fail with the
cluster taken; `fs_write_raw` frees the old chain before it allocates the new one;
`fs_remove` and `fs_rmdir` free a chain and need none.

Each theorem has a second half, which says that a call that was refused did not pass its
checks. So success and failure can be decided from the state before the call.
-/

set_option autoImplicit false

namespace OsU

/-! ## The table -/

namespace FatEdit

theorem refl (fat : Nat → Nat) : FatEdit fat fat 0 [] where
  chain := fun h => absurd rfl h
  freed := fun _ _ h => absurd h (not_onChain not_inRange_zero)
  kept := fun _ _ _ => rfl
  fresh := by simp

theorem free (fat : ByteMem) (first : Nat) :
    FatEdit (fatGet fat) (fatGet (freeChain fat first)) first [] where
  chain := fun h => absurd rfl h
  freed := fun _ _ h => freeChain_of_onChain h
  kept := fun _ _ h => freeChain_of_not_onChain h
  fresh := by simp

theorem alloc {fat : ByteMem} {x : Nat} (hx : InRange x) (h0 : fatGet fat x = 0) :
    FatEdit (fatGet fat) (fatGet (fatSet fat x fat16Eoc)) 0 [x] where
  chain := fun _ => .last hx (by
    show 0xFFF8 ≤ fatGet (fatSet fat x fat16Eoc) x
    rw [fatGet_fatSet, if_pos rfl, fat16Eoc]
    omega)
  freed := fun _ _ h => absurd h (not_onChain not_inRange_zero)
  kept := fun c hc _ => by
    rw [fatGet_fatSet, if_neg (by simpa using hc)]
  fresh := by simpa using ⟨hx, Or.inl h0⟩

/-- Nothing freed and nothing linked: the table is the same. -/
theorem eq {fat fat' : ByteMem} (h : FatEdit (fatGet fat) (fatGet fat') 0 []) : fat' = fat :=
  fat_ext fun c => h.kept c (by simp) (not_onChain not_inRange_zero)

/-- A chain freed, then a chain stored. -/
theorem store {fat fat₁ : ByteMem} {first : Nat} {data : List UInt8} {s s' : Fs} {l : List Nat}
    (h : FatEdit (fatGet fat) (fatGet fat₁) first []) (hs : s.fatBuf = fat₁)
    (hc : ChainStored data s l s') : FatEdit (fatGet fat) (fatGet s'.fatBuf) first l where
  chain := hc.chain
  freed := fun c hcl ho => by rw [hc.off c hcl, hs, h.freed c (by simp) ho]
  kept := fun c hcl ho => by rw [hc.off c hcl, hs, h.kept c (by simp) ho]
  fresh := fun c hcl => by
    obtain ⟨hr, h0⟩ := hc.fresh c hcl
    refine ⟨hr, ?_⟩
    by_cases ho : OnChain (fatGet fat) first c
    · exact Or.inr ho
    · rw [hs, h.kept c (by simp) ho] at h0
      exact Or.inl h0

end FatEdit

theorem freeChain_of_not_inRange {fat : ByteMem} {first : Nat} (h : ¬ InRange first) :
    freeChain fat first = fat :=
  fat_ext fun _ => freeChain_of_not_onChain (not_onChain h)

/-! ## Editing the loaded directory -/

theorem Loaded.held {s t : Fs} {n : Nat} (h : Loaded s t n) : Held s t 0 [] [] where
  toFatEdit := by
    rw [h.fatBuf]
    exact FatEdit.refl _
  fsReady := h.fsReady
  currentDirCluster := h.currentDirCluster
  currentPath := h.currentPath
  rootBuf := fun _ => h.rootBuf
  stored := by simp
  wrote := ⟨_, Or.inl rfl, h.toQuiet.wrote⟩

theorem Loaded.pending {s t : Fs} {n i : Nat} (h : Loaded s t n)
    (hi : i < maxEntries s.currentDirCluster) :
    Pending s t i (s.volume.slot s.currentDirCluster i) 0 [] [] where
  toHeld := h.held
  slot_lt := hi
  ent_at := h.ent i hi
  ent_other := fun _ j hj _ => h.ent j hj

theorem setEnt_rootBuf {s : Fs} (h : s.currentDirCluster ≠ 0) (i : Nat) (e : FatDirEntry) :
    (s.setEnt i e).rootBuf = s.rootBuf := by
  rw [Fs.setEnt, if_neg h]

namespace Pending

variable {s t : Fs} {i : Nat} {e : FatDirEntry} {first : Nat} {l ws : List Nat}

/-- Another entry in the slot. -/
theorem setEnt (h : Pending s t i e first l ws) (e' : FatDirEntry) :
    Pending s (t.setEnt i e') i e' first l ws where
  chain := by simpa using h.chain
  freed := by simpa using h.freed
  kept := by simpa using h.kept
  fresh := h.fresh
  fsReady := by simpa using h.fsReady
  currentDirCluster := by simpa using h.currentDirCluster
  currentPath := by simpa using h.currentPath
  rootBuf := fun h0 => by rw [setEnt_rootBuf (by rwa [h.currentDirCluster]), h.rootBuf h0]
  stored := h.stored
  wrote := by simpa using h.wrote
  slot_lt := h.slot_lt
  ent_at := by simp
  ent_other := fun hw j hj hji => by rw [setEnt_ent, if_neg hji, h.ent_other hw j hj hji]

/-- Another table. -/
theorem setFat (h : Pending s t i e first l ws) {fat : ByteMem} {first' : Nat} {l' : List Nat}
    (hw : ws = []) (hf : FatEdit (fatGet s.fatBuf) (fatGet fat) first' l') :
    Pending s { t with fatBuf := fat } i e first' l' ws where
  toFatEdit := hf
  fsReady := h.fsReady
  currentDirCluster := h.currentDirCluster
  currentPath := h.currentPath
  rootBuf := h.rootBuf
  stored := by simp [hw]
  wrote := h.wrote
  slot_lt := h.slot_lt
  ent_at := h.ent_at
  ent_other := h.ent_other

/-- Sectors of free clusters stored, and a chain linked. -/
theorem setDev (h : Pending s t i e first [] []) {fat : ByteMem} {d : Device} {l ws : List Nat}
    (hf : FatEdit (fatGet s.fatBuf) (fatGet fat) first l)
    (hs : ∀ c ∈ ws, InRange c ∧ fatGet t.fatBuf c = 0) (hw : Wrote t.dev d (ws.map dataWrite)) :
    Pending s { t with fatBuf := fat, dev := d } i e first l ws where
  toFatEdit := hf
  fsReady := h.fsReady
  currentDirCluster := h.currentDirCluster
  currentPath := h.currentPath
  rootBuf := h.rootBuf
  stored := fun c hc => by
    obtain ⟨hr, h0⟩ := hs c hc
    refine ⟨hr, ?_⟩
    by_cases ho : OnChain (fatGet s.fatBuf) first c
    · exact Or.inr ho
    · exact Or.inl (by rw [← h0, h.kept c (by simp) ho])
  wrote := by
    obtain ⟨w, -, hw'⟩ := h.wrote
    exact ⟨_, Or.inl rfl, hw'.trans hw⟩
  slot_lt := h.slot_lt
  ent_at := h.ent_at
  ent_other := fun _ => h.ent_other (by simp)

end Pending

/-! ## `fs_touch` -/

/-- The entry `fs_touch` makes. -/
def touchEntry (f11 : List UInt8) : FatDirEntry :=
  ((newEntry f11 fatAttrArchive).setFstClusLo 0).setFileSize 0

theorem fsTouch_cases {s : Fs} (hs : s.AtDir) (name : List UInt8) :
    Quiet s (fsTouch name s).2 ∨
    ∃ i t, s.fsReady = true ∧ s.seek name = ⟨none, some i⟩ ∧
      Pending s t i (touchEntry (nameBytes name)) 0 [] [] ∧ fsTouch name s = flushCurrentDir t := by
  by_cases hgo : s.fsReady = false ∨ validName name = false
  · left
    rw [fsTouch, if_pos hgo]
    exact Quiet.refl s
  · have hready : s.fsReady = true := by simpa using fun h => hgo (Or.inl h)
    simp only [fsTouch, if_neg hgo]
    obtain ⟨hq, hq', ⟨-, -, hf, he, hl⟩ | ⟨-, hno⟩⟩ := open_cases hs name
    · rw [hf, he]
      -- A name that is there and a full directory are left alone.
      cases hidx : (s.seek name).idx with
      | some i => exact Or.inl hq
      | none =>
        cases hfree : (s.seek name).freeIdx with
        | none => exact Or.inl hq
        | some i =>
          right
          have hsk : s.seek name = ⟨none, some i⟩ := by
            rw [← hidx, ← hfree]
          have hi := (seek_offered hsk).2.slot_lt
          exact ⟨i, _, hready, hsk, (hl.pending hi).setEnt _, rfl⟩
    · left
      rcases hno with hno | hno
      · rw [hno]
        exact hq
      · split
        · exact hq
        · split
          · exact hq
          · rw [if_pos hno]
            exact hq'

/-! ## `fs_remove` and `fs_rmdir` -/

/-- The entry `fs_remove` leaves. -/
def removedEntry (e : FatDirEntry) : FatDirEntry :=
  ((e.setLead 0xE5).setFileSize 0).setFstClusLo 0

theorem removeEntry_eq (idx : Nat) (s : Fs) :
    removeEntry idx s = commit (-2) ({ s with fatBuf := freeChain s.fatBuf (s.ent idx).fstClusLo }.setEnt
      idx (removedEntry (s.ent idx))) := by
  by_cases h : (s.ent idx).fstClusLo ≥ fatClusterMin
  · simp only [removeEntry, if_pos h]
    rfl
  · have hr : ¬ InRange (s.ent idx).fstClusLo := fun hr => h hr.1
    simp only [removeEntry, if_neg h, freeChain_of_not_inRange hr]
    rfl

/-- The table of a loaded directory's state, one chain freed. -/
theorem Loaded.free {s t : Fs} {n : Nat} (h : Loaded s t n) (first : Nat) :
    FatEdit (fatGet s.fatBuf) (fatGet (freeChain t.fatBuf first)) first [] := by
  rw [h.fatBuf]
  exact FatEdit.free _ _

/-- An operation that returned an error and changed nothing that lasts: the clock of the
device may have moved on, and scratch buffers may have been filled. -/
structure Refused (s : Fs) (r : Int × Fs) : Prop where
  quiet : Quiet s r.2
  code : r.1 ≠ 0

theorem refused {s s' : Fs} (h : Quiet s s') {c : Int} (hc : c ≠ 0) : Refused s (c, s') := ⟨h, hc⟩

/-- A name that is found is well formed. -/
theorem valid_of_found {s : Fs} {name : List UInt8} {i : Nat} (h : (s.seek name).idx = some i) :
    validName name = true := by
  rw [validName, (seek_found h).1]
  rfl

/-- The checks that let `fs_remove` get as far as its entry. -/
structure Removes (s : Fs) (name : List UInt8) (i : Nat) : Prop where
  ready : s.fsReady = true
  found : (s.seek name).idx = some i
  runs : s.dev.Runs (2 * dirReads s.currentDirCluster)

/-- `fs_remove` is refused, or it deletes the entry and flushes. -/
theorem fsRemove_spec {s : Fs} (hs : s.AtDir) (name : List UInt8) :
    (Refused s (fsRemove name s) ∧ ∀ i, ¬ Removes s name i) ∨
    ∃ i t, Removes s name i ∧
      Pending s t i (removedEntry (s.volume.slot s.currentDirCluster i))
        (s.volume.slot s.currentDirCluster i).fstClusLo [] [] ∧
      t.dev.clock = s.dev.clock + 2 * dirReads s.currentDirCluster ∧
      fsRemove name s = commit (-2) t := by
  by_cases hready : s.fsReady = false
  · left
    rw [fsRemove, if_pos hready]
    refine ⟨refused (Quiet.refl s) (by decide), ?_⟩
    intro i hm
    rw [hm.ready] at hready
    exact nomatch hready
  · have hopen := open_cases hs name
    simp only [fsRemove, if_neg hready]
    generalize findEntryInCurrent name s = f at hopen ⊢
    generalize currentDirEntries f.2 = d at hopen ⊢
    obtain ⟨hq, hq', ⟨-, hr, hf, he, hl⟩ | ⟨hclosed, hno⟩⟩ := hopen
    · rw [hf, he]
      cases hidx : (s.seek name).idx with
      | none =>
        refine Or.inl ⟨refused hq (by decide), ?_⟩
        intro i hm
        rw [hm.found] at hidx
        exact nomatch hidx
      | some i =>
        have hi := (seek_found hidx).2.slot_lt
        -- The name is found, and it is not asked what it leads to.
        refine Or.inr ⟨i, _, ⟨by simpa using hready, hidx, hr⟩, ?_, ?_, removeEntry_eq _ _⟩
        · rw [hl.ent i hi]
          exact ((hl.pending hi).setFat rfl (hl.free _)).setEnt _
        · rw [setEnt_dev, hl.clock]
    · left
      refine ⟨?_, fun i hm => hclosed ⟨valid_of_found hm.found, hm.runs⟩⟩
      rcases hno with hno | hno
      · rw [hno]
        exact refused hq (by decide)
      · split
        · exact refused hq (by decide)
        · rw [if_pos hno]
          exact refused hq' (by decide)

theorem fsRemove_cases {s : Fs} (hs : s.AtDir) (name : List UInt8) :
    Refused s (fsRemove name s) ∨
    ∃ i t, s.fsReady = true ∧ s.dev.Runs (2 * dirReads s.currentDirCluster) ∧
      (s.seek name).idx = some i ∧
      Pending s t i (removedEntry (s.volume.slot s.currentDirCluster i))
        (s.volume.slot s.currentDirCluster i).fstClusLo [] [] ∧
      t.dev.clock = s.dev.clock + 2 * dirReads s.currentDirCluster ∧
      fsRemove name s = commit (-2) t := by
  rcases fsRemove_spec hs name with ⟨hr, -⟩ | ⟨i, t, hm, hcase⟩
  · exact Or.inl hr
  · exact Or.inr ⟨i, t, hm.ready, hm.runs, hm.found, hcase⟩

/-- The entry `fs_rmdir` leaves. -/
def rmdiredEntry (e : FatDirEntry) : FatDirEntry := (e.setLead 0xE5).setFstClusLo 0

theorem rmdirEntry_eq (idx : Nat) (s : Fs) :
    rmdirEntry idx s = commit (-5) ({ s with fatBuf := freeChain s.fatBuf (s.ent idx).fstClusLo }.setEnt
      idx (rmdiredEntry (s.ent idx))) := rfl

theorem emptyLoop_congr {ent ent' : Nat → FatDirEntry} {n i : Nat}
    (h : ∀ k, i ≤ k → k < i + n → ent k = ent' k) : emptyLoop ent n i = emptyLoop ent' n i := by
  induction n generalizing i with
  | zero => rfl
  | succ n ih =>
    rw [emptyLoop, emptyLoop, h i (Nat.le_refl i) (by omega), ih fun k h₁ h₂ => h k (by omega) (by omega)]

/-- The clock may have moved on since the directory was loaded. -/
theorem Loaded.tick {s t : Fs} {n : Nat} (h : Loaded s t n) (m : Nat) :
    Loaded s { t with dev := { t.dev with clock := t.dev.clock + m } } (n + m) where
  toQuiet := h.toQuiet.trans (Quiet.dev _ _)
  ent := h.ent
  clock := by
    show t.dev.clock + m = _
    rw [h.clock, Nat.add_assoc]

/-- The sector `fs_rmdir` reads before it looks for entries in it. -/
theorem Loaded.emptyLoop_eq {s t : Fs} {n : Nat} (h : Loaded s t n) (c : Nat) :
    emptyLoop (entryAt (ByteMem.copy (fun _ => 0) 0 (t.dev.sectors (4135 + c)).mem 512)) 14 2 =
      emptyLoop (entryAt (s.volume.sector c).mem) 14 2 := by
  rw [h.sectors]
  exact emptyLoop_congr fun k _ hk => entryAt_copy_mem _ _ (by omega)

/-- The checks that let `fs_rmdir` get as far as its entry: the name is a directory's, and the
directory looks empty. -/
structure Rmdirs (s : Fs) (name : List UInt8) (i : Nat) : Prop where
  ready : s.fsReady = true
  found : (s.seek name).idx = some i
  isDir : (s.volume.slot s.currentDirCluster i).isDir = true
  empty : emptyLoop (entryAt (s.volume.sector
    (s.volume.slot s.currentDirCluster i).fstClusLo).mem) 14 2 = true
  runs : s.dev.Runs (2 * dirReads s.currentDirCluster + 1)

/-- `fs_rmdir` is refused, or it deletes the entry and flushes. -/
theorem fsRmdir_spec {s : Fs} (hs : s.AtDir) (name : List UInt8) :
    (Refused s (fsRmdir name s) ∧ ∀ i, ¬ Rmdirs s name i) ∨
    ∃ i t, Rmdirs s name i ∧
      Pending s t i (rmdiredEntry (s.volume.slot s.currentDirCluster i))
        (s.volume.slot s.currentDirCluster i).fstClusLo [] [] ∧
      t.dev.clock = s.dev.clock + (2 * dirReads s.currentDirCluster + 1) ∧
      fsRmdir name s = commit (-5) t := by
  by_cases hready : s.fsReady = false
  · left
    rw [fsRmdir, if_pos hready]
    refine ⟨refused (Quiet.refl s) (by decide), ?_⟩
    intro i hm
    rw [hm.ready] at hready
    exact nomatch hready
  · have hopen := open_cases hs name
    simp only [fsRmdir, if_neg hready]
    generalize findEntryInCurrent name s = f at hopen ⊢
    generalize currentDirEntries f.2 = d at hopen ⊢
    obtain ⟨hq, hq', ⟨-, hr, hf, he, hl⟩ | ⟨hclosed, hno⟩⟩ := hopen
    · rw [hf, he]
      cases hidx : (s.seek name).idx with
      | none =>
        refine Or.inl ⟨refused hq (by decide), ?_⟩
        intro i hm
        rw [hm.found] at hidx
        exact nomatch hidx
      | some i =>
        have hi := (seek_found hidx).2.slot_lt
        have hclus := FatDirEntry.fstClusLo_lt (s.volume.slot s.currentDirCluster i)
        have hadd := Device.runs_add (n := 1) hl.ok hl.clock
        -- The slot is that of the lookup, so a condition on another slot is one on
        -- this.
        have hsame : ∀ j, Rmdirs s name j → j = i := by
          intro j hm
          rw [hm.found] at hidx
          exact Option.some.inj hidx
        simp only [Bool.true_eq_false, if_false, hl.ent i hi]
        by_cases hdir : (s.volume.slot s.currentDirCluster i).isDir = false
        · rw [if_pos hdir]
          refine Or.inl ⟨refused hq' (by decide), ?_⟩
          intro j hm
          obtain rfl := hsame j hm
          rw [hm.isDir] at hdir
          exact nomatch hdir
        · rw [if_neg hdir, diskReadSectors_one, clusterLba_mod hclus]
          by_cases hok : d.2.dev.ok d.2.dev.clock = true
          · have hone : d.2.dev.Runs 1 := fun k hk => by
              obtain rfl : k = 0 := by omega
              exact hok
            rw [if_pos hok]
            simp only [ne_eq, not_true_eq_false, if_false]
            rw [hl.emptyLoop_eq]
            by_cases hempty : emptyLoop (entryAt (s.volume.sector
                (s.volume.slot s.currentDirCluster i).fstClusLo).mem) 14 2 = false
            · left
              rw [if_pos hempty]
              refine ⟨refused (hq'.trans (Quiet.dev _ _)) (by decide), ?_⟩
              intro j hm
              obtain rfl := hsame j hm
              rw [hm.empty] at hempty
              exact nomatch hempty
            · right
              rw [if_neg hempty]
              have hp := hl.tick 1
              refine ⟨i, _, ⟨by simpa using hready, hidx, by simpa using hdir, by simpa using hempty,
                hadd.mpr ⟨hr, hone⟩⟩, ?_, ?_, rmdirEntry_eq _ _⟩
              · rw [hp.ent i hi]
                exact ((hp.pending hi).setFat rfl (hp.free _)).setEnt _
              · rw [setEnt_dev, hp.clock]
          · rw [if_neg hok]
            refine Or.inl ⟨refused (hq'.trans (Quiet.dev _ _)) (by decide), ?_⟩
            intro j hm
            exact hok ((hadd.mp hm.runs).2 0 Nat.zero_lt_one)
    · left
      refine ⟨?_, fun i hm => hclosed ⟨valid_of_found hm.found, fun k hk =>
        hm.runs k (Nat.lt_succ_of_lt hk)⟩⟩
      rcases hno with hno | hno
      · rw [hno]
        exact refused hq (by decide)
      · split
        · exact refused hq (by decide)
        · rw [if_pos hno]
          exact refused hq' (by decide)

theorem fsRmdir_cases {s : Fs} (hs : s.AtDir) (name : List UInt8) :
    Refused s (fsRmdir name s) ∨
    ∃ i t, s.fsReady = true ∧ s.dev.Runs (2 * dirReads s.currentDirCluster + 1) ∧
      (s.seek name).idx = some i ∧ (s.volume.slot s.currentDirCluster i).isDir = true ∧
      emptyLoop (entryAt (s.volume.sector
        (s.volume.slot s.currentDirCluster i).fstClusLo).mem) 14 2 = true ∧
      Pending s t i (rmdiredEntry (s.volume.slot s.currentDirCluster i))
        (s.volume.slot s.currentDirCluster i).fstClusLo [] [] ∧
      t.dev.clock = s.dev.clock + (2 * dirReads s.currentDirCluster + 1) ∧
      fsRmdir name s = commit (-5) t := by
  rcases fsRmdir_spec hs name with ⟨hr, -⟩ | ⟨i, t, hm, hcase⟩
  · exact Or.inl hr
  · exact Or.inr ⟨i, t, hm.ready, hm.runs, hm.found, hm.isDir, hm.empty, hcase⟩

/-! ## `fs_mkdir` -/

/-- The entry `fs_mkdir` makes. -/
def mkdirEntry (f11 : List UInt8) (cluster : Nat) : FatDirEntry :=
  ((newEntry f11 fsAttrDirectory).setFstClusLo cluster).setFileSize 0

/-- Freeing a cluster that was just allocated puts the table back. -/
theorem freeChain_alloc {fat : ByteMem} {x : Nat} (hx : InRange x) (h0 : fatGet fat x = 0) :
    freeChain (fatSet fat x fat16Eoc) x = fat := by
  have hch : FatChain (fatGet (fatSet fat x fat16Eoc)) x [x] := (FatEdit.alloc hx h0).chain (by simp)
  refine fat_ext fun c => ?_
  by_cases hc : c = x
  · rw [hc, freeChain_of_onChain ((hch.mem_iff x).mp (by simp)), h0]
  · rw [freeChain_of_not_onChain fun ho => hc (by simpa using (hch.mem_iff c).mpr ho), fatGet_fatSet,
      if_neg hc]

theorem Held.quiet {s t t' : Fs} {first : Nat} {l ws : List Nat} (h : Held s t first l ws)
    (hq : Quiet t t') : Held s t' first l ws where
  toFatEdit := by
    rw [hq.fatBuf]
    exact h.toFatEdit
  fsReady := hq.fsReady.trans h.fsReady
  currentDirCluster := hq.currentDirCluster.trans h.currentDirCluster
  currentPath := hq.currentPath.trans h.currentPath
  rootBuf := fun h0 => hq.rootBuf.trans (h.rootBuf h0)
  stored := h.stored
  wrote := by
    obtain ⟨w, hw, hwr⟩ := h.wrote
    exact ⟨w, hw, by simpa using hwr.trans hq.wrote⟩

/-- The cluster of a new directory, allocated and stored. -/
theorem Held.made {s t : Fs} (hq : Quiet s t) {x : Nat} (hx : InRange x)
    (h0 : fatGet s.fatBuf x = 0) (c : Nat) (sec : Sector) :
    Held s { t with
      fatBuf := fatSet t.fatBuf x fat16Eoc
      dev := Device.store { t.dev with clock := c } .fsMkdir (4135 + x) sec } 0 [x] [x] where
  toFatEdit := by
    rw [hq.fatBuf]
    exact FatEdit.alloc hx h0
  fsReady := hq.fsReady
  currentDirCluster := hq.currentDirCluster
  currentPath := hq.currentPath
  rootBuf := fun _ => hq.rootBuf
  stored := by simpa using ⟨hx, Or.inl h0⟩
  wrote := ⟨.fsMkdir, Or.inr rfl, by simpa using hq.wrote.trans (Wrote.store c)⟩

/-- The current directory loaded again after that: its slots are the old ones, unless the new
cluster is the directory itself. -/
theorem Held.pending {s u t : Fs} {x n i : Nat} (h : Held s u 0 [x] [x]) (hl : Loaded u t n)
    (hroot : s.currentDirCluster = 0 → u.volume.root = s.volume.root)
    (hi : i < maxEntries s.currentDirCluster) : Pending s t i (t.ent i) 0 [x] [x] := by
  refine ⟨h.quiet hl.toQuiet, hi, rfl, ?_⟩
  intro hw j hj _
  have hcwd := h.currentDirCluster
  rw [hl.ent j (by rwa [hcwd]), hcwd]
  by_cases h0 : s.currentDirCluster = 0
  · rw [h0]
    simp only [Volume.slot, if_true, hroot h0]
  · refine slot_of_ne h0 (h.sector_eq fun c hc he => hw ?_)
    rwa [show s.currentDirCluster = c by omega]

/-- The checks that let `fs_mkdir` store the sector of a new directory; cluster `x` is
free, and it is the first that is. -/
structure Makes (s : Fs) (name : List UInt8) (i x : Nat) : Prop where
  ready : s.fsReady = true
  slot : s.seek name = ⟨none, some i⟩
  inRange : InRange x
  free : fatGet s.fatBuf x = 0
  runs : s.dev.Runs (dirReads s.currentDirCluster + 1)

/-- `fs_mkdir` is refused, or it has its cluster. From there it ends with `-5`, the directory not
loaded again, or it flushes. -/
theorem fsMkdir_spec {s : Fs} (hs : s.AtDir) (name : List UInt8) :
    (Refused s (fsMkdir name s) ∧ ∀ i x, ¬ Makes s name i x) ∨
    ∃ i x, Makes s name i x ∧
      ((s.currentDirCluster ≠ 0 ∧ ¬ s.dev.Runs (2 * dirReads s.currentDirCluster + 1) ∧
          (fsMkdir name s).1 = -5 ∧ Held s (fsMkdir name s).2 0 [x] [x]) ∨
        ∃ t, Pending s t i (mkdirEntry (nameBytes name) x) 0 [x] [x] ∧
          t.volume.sector x = sectorOf (newDir x s.currentDirCluster) 0 ∧
          s.dev.Runs (2 * dirReads s.currentDirCluster + 1) ∧
          t.dev.clock = s.dev.clock + (2 * dirReads s.currentDirCluster + 1) ∧
          fsMkdir name s = commit (-6) t) := by
  -- The refusals come in the order of the source: each is before the mark in the table,
  -- so it changes nothing, and each contradicts a part of `Makes`.
  by_cases hgo : s.fsReady = false ∨ validName name = false
  · left
    rw [fsMkdir, if_pos hgo]
    refine ⟨refused (Quiet.refl s) (by decide), ?_⟩
    intro i x hm
    rcases hgo with hgo | hgo
    · exact absurd hm.ready (by simp [hgo])
    · have hf := (seek_offered hm.slot).1
      simp [validName, hf] at hgo
  · have hready : s.fsReady = true := by simpa using fun h => hgo (Or.inl h)
    have hvalid : validName name = true := by simpa using fun h => hgo (Or.inr h)
    have hfind := findEntryInCurrent_cases hs name
    simp only [fsMkdir, if_neg hgo]
    obtain ⟨-, hr, f, hf, hl⟩ | ⟨hno, f, hf, hq⟩ := hfind
    · rw [hf]
      have hq := hl.toQuiet
      cases hidx : (s.seek name).idx with
      | some i =>
        refine Or.inl ⟨refused hq (by decide), ?_⟩
        intro i x hm
        rw [hm.slot] at hidx
        cases hidx
      | none =>
        cases hfree : (s.seek name).freeIdx with
        | none =>
          refine Or.inl ⟨refused hq (by decide), ?_⟩
          intro i x hm
          rw [hm.slot] at hfree
          cases hfree
        | some i =>
          have hsk : s.seek name = ⟨none, some i⟩ := by
            rw [← hidx, ← hfree]
          have hi := (seek_offered hsk).2.slot_lt
          have hadd := Device.runs_add (n := 1) hl.ok hl.clock
          have hone : f.dev.Runs 1 ↔ f.dev.ok f.dev.clock = true := by
            rw [Device.runs_succ]
            exact and_iff_left (fun k hk => absurd hk (Nat.not_lt_zero k))
          rcases allocCluster_cases f.fatBuf with ⟨x, hx, hx0, -, ha⟩ | ⟨hfull, ha⟩
          · have hxr := inRange_iff.mp hx
            have hx0' : fatGet s.fatBuf x = 0 := by rw [← hq.fatBuf, hx0]
            simp only [ha, if_neg (show ¬ x = 0 by omega), diskWriteSectors_one,
              clusterLba_mod (show x < 65536 by omega)]
            -- The store of the new sector is the last poll that can fail with the
            -- cluster taken back.
            by_cases hok : f.dev.ok f.dev.clock = true
            · have hheld := Held.made hq hx hx0' (f.dev.clock + 1)
                (sectorOf (newDir x f.currentDirCluster) 0)
              have hruns := hadd.mpr ⟨hr, hone.mpr hok⟩
              simp only [if_pos hok, ne_eq, not_true_eq_false, if_false]
              refine Or.inr ⟨i, x, ⟨hready, hsk, hx, hx0', hruns⟩, ?_⟩
              generalize hs₁ : ({ f with
                fatBuf := fatSet f.fatBuf x fat16Eoc
                dev := Device.store { f.dev with clock := f.dev.clock + 1 } .fsMkdir (4135 + x)
                  (sectorOf (newDir x f.currentDirCluster) 0) } : Fs) = s₁ at hheld ⊢
              have hcwd := hheld.currentDirCluster
              have hdir : s₁.AtDir := by rw [Fs.AtDir, hcwd]; exact hs
              have hsec : s₁.dev.sectors (4135 + x) = sectorOf (newDir x s.currentDirCluster) 0 := by
                rw [← hs₁, store_sectors, if_pos rfl, hq.currentDirCluster]
              have hclock : s₁.dev.clock = s.dev.clock + (dirReads s.currentDirCluster + 1) := by
                rw [← hs₁]
                show f.dev.clock + 1 = _
                rw [hl.clock, Nat.add_assoc]
              -- From here the cluster stays marked. The directory is loaded again, with
              -- its reads behind the store, and that may fail below the root.
              have hagain := Device.runs_add (n := dirReads s.currentDirCluster)
                (show s₁.dev.ok = s.dev.ok by rw [← hs₁]; exact hl.ok) hclock
              rw [show dirReads s.currentDirCluster + 1 + dirReads s.currentDirCluster =
                2 * dirReads s.currentDirCluster + 1 by omega] at hagain
              rcases currentDirEntries_cases hdir with ⟨hyes, t, he, hl'⟩ | ⟨hno, t, he, hq'⟩
              · right
                rw [hcwd] at hyes
                rw [he]
                refine ⟨t.setEnt i _, (hheld.pending hl' (fun _ => ?_) hi).setEnt _, ?_,
                  hagain.mpr ⟨hruns, hyes⟩, ?_, rfl⟩
                · simp only [Fs.volume, ← hs₁, hq.rootBuf]
                · show (t.setEnt i _).dev.sectors (4135 + x) = _
                  rw [setEnt_dev, hl'.sectors, hsec]
                · rw [setEnt_dev, hl'.clock, hclock, hcwd]
                  omega
              · left
                rw [hcwd] at hno
                rw [he]
                simp only [if_true]
                refine ⟨fun h0 => hno ?_, fun h => hno (hagain.mp h).2, trivial, hheld.quiet hq'⟩
                rw [h0]
                exact fun k hk => absurd hk (by simp [dirReads])
            · left
              -- The mark is taken back: the chain of one cluster is freed, and the
              -- table is that of before.
              have hback : freeChain (fatSet f.fatBuf x fat16Eoc) x = f.fatBuf :=
                freeChain_alloc hx hx0
              simp only [hok, hback, Bool.false_eq_true, if_false, ne_eq]
              refine ⟨refused (hq.trans (Quiet.dev _ _)) (by decide), ?_⟩
              intro j y hm
              exact hok (hone.mp (hadd.mp hm.runs).2)
          · left
            simp only [ha, if_true]
            refine ⟨refused hq (by decide), ?_⟩
            intro j y hm
            exact hfull y hm.inRange (by rw [hq.fatBuf]; exact hm.free)
    · left
      rw [hf]
      refine ⟨refused hq (by decide), ?_⟩
      intro i x hm
      exact hno ⟨hvalid, fun k hk => hm.runs k (Nat.lt_succ_of_lt hk)⟩

theorem fsMkdir_cases {s : Fs} (hs : s.AtDir) (name : List UInt8) :
    Refused s (fsMkdir name s) ∨
    ∃ i x, s.fsReady = true ∧ s.seek name = ⟨none, some i⟩ ∧ InRange x ∧ fatGet s.fatBuf x = 0 ∧
      ((s.currentDirCluster ≠ 0 ∧ (fsMkdir name s).1 ≠ 0 ∧ Held s (fsMkdir name s).2 0 [x] [x]) ∨
        ∃ t, Pending s t i (mkdirEntry (nameBytes name) x) 0 [x] [x] ∧
          t.volume.sector x = sectorOf (newDir x s.currentDirCluster) 0 ∧
          fsMkdir name s = commit (-6) t) := by
  rcases fsMkdir_spec hs name with ⟨hr, -⟩ | ⟨i, x, hm, hcase⟩
  · exact Or.inl hr
  · refine Or.inr ⟨i, x, hm.ready, hm.slot, hm.inRange, hm.free, ?_⟩
    rcases hcase with ⟨h0, -, hcode, hheld⟩ | ⟨t, hp, hsec, -, -, he⟩
    · exact Or.inl ⟨h0, by rw [hcode]; decide, hheld⟩
    · exact Or.inr ⟨t, hp, hsec, he⟩

/-! ## `fs_write_raw` and `fs_append`

The slot, the clusters that will be free, and the entry that will be made are all known
before the call changes anything. So its outcome is one of a few cases, each with its
state. -/

/-- The slot `fs_write_raw` works on, with the entry it starts from: the one of that name, or a
new one in a vacant slot. -/
def Fs.writeSlot (s : Fs) (name : List UInt8) : Option (Nat × FatDirEntry) :=
  match s.seek name with
  | ⟨some i, _⟩ => some (i, s.volume.slot s.currentDirCluster i)
  | ⟨none, some i⟩ => some (i, newEntry (nameBytes name) fatAttrArchive)
  | ⟨none, none⟩ => none

/-- The clusters free once the chain of `first` is. An entry without a chain frees none,
and a chain that leads into another frees that part too. -/
def Fs.freeAfter (s : Fs) (first : Nat) : Finset Nat := freeClusters (fatGet (freeChain s.fatBuf first))

/-- The entry once its old chain is freed. -/
def droppedEntry (e : FatDirEntry) : FatDirEntry :=
  if e.fstClusLo ≥ fatClusterMin then e.setFstClusLo 0 else e

/-- The entry of a file of `size` bytes on the chain of `first`. -/
def writtenEntry (e : FatDirEntry) (first size : Nat) : FatDirEntry :=
  ((droppedEntry e).setFstClusLo first).setFileSize size

theorem dropChain_pending {s t : Fs} {i : Nat} {e : FatDirEntry} (h : Pending s t i e 0 [] []) :
    Pending s (dropChain i t) i (droppedEntry e) e.fstClusLo [] [] ∧
      (dropChain i t).fatBuf = freeChain s.fatBuf e.fstClusLo ∧ (dropChain i t).dev = t.dev := by
  have hfat := h.eq
  rw [dropChain, h.ent_at, droppedEntry]
  by_cases hc : e.fstClusLo ≥ fatClusterMin
  · rw [if_pos hc, if_pos hc]
    have hf : FatEdit (fatGet s.fatBuf) (fatGet (freeChain t.fatBuf e.fstClusLo)) e.fstClusLo [] := by
      rw [hfat]
      exact FatEdit.free _ _
    exact ⟨(h.setFat rfl hf).setEnt _, by rw [setEnt_fatBuf, hfat], setEnt_dev _ _ _⟩
  · rw [if_neg hc, if_neg hc]
    have hr : ¬ InRange e.fstClusLo := fun hr => hc hr.1
    have hf : FatEdit (fatGet s.fatBuf) (fatGet t.fatBuf) e.fstClusLo [] := by
      have := FatEdit.free s.fatBuf e.fstClusLo
      rw [freeChain_of_not_inRange hr] at this
      rwa [hfat]
    exact ⟨h.setFat rfl hf, by rw [hfat, freeChain_of_not_inRange hr], rfl⟩

/-- What `fs_write_raw` does with the slot: it ends with `-3`, the old chain freed and the new
entry not made, or it stores the data and flushes. -/
theorem writeEntry_cases {s u : Fs} {i : Nat} {e : FatDirEntry} (h : Pending s u i e 0 [] [])
    (data : List UInt8) :
    (∃ ws, (writeEntry i data u).1 = -3 ∧
      Pending s (writeEntry i data u).2 i (droppedEntry e) e.fstClusLo [] ws ∧
      ¬ (sectorsFor data.length ≤ (s.freeAfter e.fstClusLo).card ∧
        u.dev.Runs (sectorsFor data.length))) ∨
    ∃ t l, Pending s t i (writtenEntry e (l.headD 0) data.length) e.fstClusLo l l ∧
      writeEntry i data u = commit (-4) t ∧
      sectorsFor data.length ≤ (s.freeAfter e.fstClusLo).card ∧
      u.dev.Runs (sectorsFor data.length) ∧ l.length = sectorsFor data.length ∧
      t.dev.clock = u.dev.clock + sectorsFor data.length ∧
      ∀ k c, l[k]? = some c → t.volume.sector c = chunk data k := by
  obtain ⟨hp, hfat, hdev⟩ := dropChain_pending h
  have hw : writeEntry i data u =
      match writeClusterChain data (dropChain i u) with
      | (none, t) => (-3, t)
      | (some first, t) =>
        commit (-4) (t.setEnt i (((t.ent i).setFstClusLo first).setFileSize data.length)) := by
    rw [writeEntry]
    generalize writeClusterChain data (dropChain i u) = w
    obtain ⟨_ | first, t⟩ := w <;> rfl
  -- The chain of the old file is free by now, and its clusters are counted among those
  -- there are.
  have hfree : freeClusters (fatGet (dropChain i u).fatBuf) = s.freeAfter e.fstClusLo := by
    rw [hfat, Fs.freeAfter]
  rcases writeClusterChain_cases data (dropChain i u) with ⟨t, he, hc⟩ | ⟨l, t, he, hc⟩
  · left
    rw [he] at hw
    -- The sectors that were written before the failure stay as they are, in clusters
    -- that are free.
    obtain ⟨l, hwr, hl⟩ := hc.wrote
    have hwhy := hc.why
    rw [hfree, hdev] at hwhy
    obtain ⟨d', rfl⟩ := hc.state
    rw [hw]
    exact ⟨l, rfl, hp.setDev hp.toFatEdit hl hwr, hwhy⟩
  · right
    rw [he] at hw
    have hroom := hc.room
    have hruns := hc.runs
    have hclock := hc.clock
    have hhold := hc.holds
    rw [hc.length] at hclock
    rw [hc.length, hfree] at hroom
    rw [hc.length, hdev] at hruns
    rw [hdev] at hclock
    have hst := FatEdit.store hp.toFatEdit rfl hc
    obtain ⟨fat', d', rfl⟩ := hc.state
    have hp' := hp.setDev hst hc.fresh hc.wrote
    refine ⟨_, l, ?_, hw, hroom, hruns, hc.length, ?_, fun k c hk => ?_⟩
    · rw [hp'.ent_at]
      exact hp'.setEnt _
    · rw [setEnt_dev]
      exact hclock
    · simp only [Fs.volume, setEnt_dev]
      exact hhold k c hk

/-- The checks that let `fs_write_raw` get as far as its slot. -/
structure Writes (s : Fs) (name data : List UInt8) (i : Nat) (e : FatDirEntry) : Prop where
  ready : s.fsReady = true
  fits : data.length ≤ fsMaxFileSize
  slot : s.writeSlot name = some (i, e)
  runs : s.dev.Runs (2 * dirReads s.currentDirCluster)

theorem fsWriteRaw_cases {s : Fs} (hs : s.AtDir) (name data : List UInt8) :
    (Refused s (fsWriteRaw name data s) ∧ ∀ i e, ¬ Writes s name data i e) ∨
    ∃ i e u, Writes s name data i e ∧ Pending s u i e 0 [] [] ∧
      u.dev.clock = s.dev.clock + 2 * dirReads s.currentDirCluster ∧ u.dev.ok = s.dev.ok ∧
      fsWriteRaw name data s = writeEntry i data u := by
  -- The three checks in front of the first read.
  by_cases hgo : s.fsReady = false ∨ validName name = false ∨ data.length > fsMaxFileSize
  · left
    rw [fsWriteRaw, if_pos hgo]
    refine ⟨refused (Quiet.refl s) (by decide), fun i e hw => ?_⟩
    rcases hgo with h | h | h
    · exact absurd hw.ready (by rw [h]; decide)
    · have hn : fatNameFromInput name = none := by simpa [validName] using h
      have := hw.slot
      rw [Fs.writeSlot, Fs.seek, hn] at this
      exact absurd this (by simp)
    · have := hw.fits
      omega
  · have hready : s.fsReady = true := by simpa using fun h => hgo (Or.inl h)
    have hvalid : validName name = true := by simpa using fun h => hgo (Or.inr (Or.inl h))
    have hfits : data.length ≤ fsMaxFileSize := by
      simpa using fun h => hgo (Or.inr (Or.inr h))
    have hopen := open_cases hs name
    simp only [fsWriteRaw, if_neg hgo]
    generalize findEntryInCurrent name s = f at hopen ⊢
    generalize currentDirEntries f.2 = d at hopen ⊢
    obtain ⟨hq, hq', ⟨-, hr, hf, he, hl⟩ | ⟨hno, hwhy⟩⟩ := hopen
    · rw [hf, if_neg (by rw [he]; decide)]
      -- The slot of the file, a slot for a new one, which is filled in before anything
      -- else, or none.
      rcases hsk : s.seek name with ⟨idx, free⟩
      cases idx with
      | some i =>
        right
        have hi := (seek_found (i := i) (by rw [hsk])).2.slot_lt
        exact ⟨i, _, _, ⟨hready, hfits, by rw [Fs.writeSlot, hsk], hr⟩, hl.pending hi, hl.clock, hl.ok,
          rfl⟩
      | none =>
        cases free with
        | none =>
          left
          refine ⟨refused hq' (by decide), fun i e hw => ?_⟩
          have := hw.slot
          rw [Fs.writeSlot, hsk] at this
          exact absurd this (by simp)
        | some i =>
          right
          have hi := (seek_offered hsk).2.slot_lt
          exact ⟨i, _, _, ⟨hready, hfits, by rw [Fs.writeSlot, hsk], hr⟩, (hl.pending hi).setEnt _,
            by rw [setEnt_dev, hl.clock], by rw [setEnt_dev, hl.ok], rfl⟩
    · left
      have hno' : ∀ i e, ¬ Writes s name data i e := fun i e hw => hno ⟨hvalid, hw.runs⟩
      rcases hwhy with h | h
      · rw [h]
        split
        · exact ⟨refused hq' (by decide), hno'⟩
        · exact ⟨refused hq' (by decide), hno'⟩
      · rw [if_pos h]
        exact ⟨refused hq' (by decide), hno'⟩

end OsU
