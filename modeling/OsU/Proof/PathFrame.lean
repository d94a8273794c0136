import OsU.Volume.Tree

/-!
# The path string and the other calls

Only `fs_chdir` and `fs_getcwd` look at `current_path`. Any other call answers alike,
and leaves states that are alike, whatever the string is.

It is needed because a call in another directory is made by going there and back, and
the string afterwards need not be the one before. The lemmas go through the driver
function by function, from the flushes up to the calls, and each is the same argument:
the function is made of others that do not look.
-/

set_option autoImplicit false

namespace OsU

/-- The same driver but for `current_path`. -/
def SameButPath (s s' : Fs) : Prop := ∃ p, s' = { s with currentPath := p }

/-- The same answer, and states that differ in `current_path` only. -/
structure PathBlind {α : Type} (r r' : α × Fs) : Prop where
  answer : r'.1 = r.1
  state : SameButPath r.2 r'.2

section PathBlind
variable {α : Type} {s s' : Fs}

theorem SameButPath.volume (h : SameButPath s s') : s'.volume = s.volume := by
  obtain ⟨p, rfl⟩ := h
  rfl

theorem SameButPath.readCache (h : SameButPath s s') : s'.readCache = s.readCache := by
  obtain ⟨p, rfl⟩ := h
  rfl

theorem pathBlind {a : α} (h : SameButPath s s') : PathBlind (a, s) (a, s') := ⟨rfl, h⟩

theorem PathBlind.ite {c : Prop} [Decidable c] {a b a' b' : α × Fs} (ha : c → PathBlind a a')
    (hb : ¬ c → PathBlind b b') : PathBlind (if c then a else b) (if c then a' else b') := by
  by_cases h : c
  · rw [if_pos h, if_pos h]
    exact ha h
  · rw [if_neg h, if_neg h]
    exact hb h

end PathBlind

section Calls
variable {s s' : Fs} (h : SameButPath s s')
include h

theorem currentDirEntries_blind : PathBlind (currentDirEntries s) (currentDirEntries s') := by
  obtain ⟨p, rfl⟩ := h
  unfold currentDirEntries
  apply PathBlind.ite
  · intro _
    exact pathBlind ⟨p, rfl⟩
  · intro _
    exact pathBlind ⟨p, rfl⟩

theorem findEntryInCurrent_blind (name : List UInt8) :
    PathBlind (findEntryInCurrent name s) (findEntryInCurrent name s') := by
  unfold findEntryInCurrent
  cases fatNameFromInput name with
  | none => exact pathBlind h
  | some f11 =>
    obtain ⟨hd, p, hs⟩ := currentDirEntries_blind h
    simp only [hd, hs]
    apply PathBlind.ite
    · intro _
      exact pathBlind ⟨p, rfl⟩
    · intro _
      exact pathBlind ⟨p, rfl⟩

theorem SameButPath.setEnt (i : Nat) (e : FatDirEntry) :
    SameButPath (s.setEnt i e) (s'.setEnt i e) := by
  obtain ⟨p, rfl⟩ := h
  refine ⟨p, ?_⟩
  unfold Fs.setEnt
  split
  · rfl
  · rfl

theorem flushFat_blind : PathBlind (flushFat s) (flushFat s') := by
  obtain ⟨p, rfl⟩ := h
  exact ⟨rfl, p, rfl⟩

theorem flushCurrentDir_blind : PathBlind (flushCurrentDir s) (flushCurrentDir s') := by
  obtain ⟨p, rfl⟩ := h
  unfold flushCurrentDir
  apply PathBlind.ite
  · intro _
    exact ⟨rfl, p, rfl⟩
  · intro _
    exact ⟨rfl, p, rfl⟩

/-- The two flushes that end a change. -/
theorem flushes_blind (err : Int) :
    PathBlind
      (let f := flushFat s
        if f.1 ≠ 0 then (err, f.2)
        else
          let g := flushCurrentDir f.2
          if g.1 ≠ 0 then (err, g.2) else (0, g.2))
      (let f := flushFat s'
        if f.1 ≠ 0 then (err, f.2)
        else
          let g := flushCurrentDir f.2
          if g.1 ≠ 0 then (err, g.2) else (0, g.2)) := by
  have hf := flushFat_blind h
  have hg := flushCurrentDir_blind hf.state
  simp only [hf.answer, hg.answer]
  apply PathBlind.ite
  · intro _
    exact pathBlind hf.state
  · intro _
    apply PathBlind.ite
    · intro _
      exact pathBlind hg.state
    · intro _
      exact pathBlind hg.state

theorem loadLoop_blind (size n c copied : Nat) :
    PathBlind (loadLoop size n c copied s) (loadLoop size n c copied s') := by
  induction n generalizing c copied s s' with
  | zero => exact pathBlind h
  | succ n ih =>
    obtain ⟨p, rfl⟩ := h
    rw [loadLoop, loadLoop]
    apply PathBlind.ite
    · intro _
      apply PathBlind.ite
      · intro _
        exact pathBlind ⟨p, rfl⟩
      · intro _
        apply PathBlind.ite
        · intro _
          exact pathBlind ⟨p, rfl⟩
        · intro _
          exact ih ⟨p, rfl⟩ _ _
    · intro _
      exact pathBlind ⟨p, rfl⟩

theorem loadClusterChain_blind (first size : Nat) :
    PathBlind (loadClusterChain first size s) (loadClusterChain first size s') := by
  unfold loadClusterChain
  simp only
  generalize (if size > fsMaxFileSize then fsMaxFileSize else size) = limit
  obtain ⟨ha, p, hs⟩ := loadLoop_blind h limit limit first 0
  rw [ha, hs]
  split
  · exact ⟨ha, p, hs⟩
  · exact pathBlind ⟨p, rfl⟩

theorem writeLoop_blind (data : List UInt8) (n first prev written : Nat) :
    PathBlind (writeLoop data n first prev written s) (writeLoop data n first prev written s') := by
  induction n generalizing first prev written s s' with
  | zero => exact pathBlind h
  | succ n ih =>
    obtain ⟨p, rfl⟩ := h
    rw [writeLoop, writeLoop]
    apply PathBlind.ite
    · intro _
      apply PathBlind.ite
      · intro _
        exact pathBlind ⟨p, rfl⟩
      · intro _
        apply PathBlind.ite
        · intro _
          exact pathBlind ⟨p, rfl⟩
        · intro _
          exact ih ⟨p, rfl⟩ _ _ _
    · intro _
      exact pathBlind ⟨p, rfl⟩

theorem writeClusterChain_blind (data : List UInt8) :
    PathBlind (writeClusterChain data s) (writeClusterChain data s') := by
  unfold writeClusterChain
  apply PathBlind.ite
  · intro _
    exact pathBlind h
  · intro _
    exact writeLoop_blind h _ _ _ _ _

theorem ent_blind (i : Nat) : s'.ent i = s.ent i := by
  obtain ⟨p, rfl⟩ := h
  rfl

theorem dropChain_blind (idx : Nat) : SameButPath (dropChain idx s) (dropChain idx s') := by
  have he := ent_blind h idx
  unfold dropChain
  rw [he]
  split
  · refine SameButPath.setEnt ?_ _ _
    obtain ⟨p, rfl⟩ := h
    exact ⟨p, rfl⟩
  · exact h

theorem writeEntry_blind (idx : Nat) (data : List UInt8) :
    PathBlind (writeEntry idx data s) (writeEntry idx data s') := by
  have hw := writeClusterChain_blind (dropChain_blind h idx) data
  unfold writeEntry
  simp only [hw.answer]
  cases (writeClusterChain data (dropChain idx s)).1 with
  | none => exact pathBlind hw.state
  | some first =>
    simp only [ent_blind hw.state idx]
    exact flushes_blind (hw.state.setEnt idx _) (-4)

theorem removeEntry_blind (idx : Nat) : PathBlind (removeEntry idx s) (removeEntry idx s') := by
  unfold removeEntry
  simp only [ent_blind h idx]
  refine flushes_blind ?_ (-2)
  obtain ⟨p, rfl⟩ := h
  split
  · exact SameButPath.setEnt ⟨p, rfl⟩ _ _
  · exact SameButPath.setEnt ⟨p, rfl⟩ _ _

theorem rmdirEntry_blind (idx : Nat) : PathBlind (rmdirEntry idx s) (rmdirEntry idx s') := by
  unfold rmdirEntry
  simp only [ent_blind h idx]
  refine flushes_blind ?_ (-5)
  obtain ⟨p, rfl⟩ := h
  exact SameButPath.setEnt ⟨p, rfl⟩ _ _

theorem fsReady_blind : s'.fsReady = s.fsReady := by
  obtain ⟨p, rfl⟩ := h
  rfl

theorem fsTouch_blind (name : List UInt8) : PathBlind (fsTouch name s) (fsTouch name s') := by
  have hf := findEntryInCurrent_blind h name
  have hd := currentDirEntries_blind hf.state
  unfold fsTouch
  simp only [fsReady_blind h, hf.answer, hd.answer]
  apply PathBlind.ite
  · intro _
    exact pathBlind h
  · intro _
    cases (findEntryInCurrent name s).1.idx with
    | some i => exact pathBlind hf.state
    | none =>
      cases (findEntryInCurrent name s).1.freeIdx with
      | none => exact pathBlind hf.state
      | some i =>
        apply PathBlind.ite
        · intro _
          exact pathBlind hd.state
        · intro _
          exact flushCurrentDir_blind (hd.state.setEnt i _)

theorem fsRemove_blind (name : List UInt8) : PathBlind (fsRemove name s) (fsRemove name s') := by
  have hf := findEntryInCurrent_blind h name
  have hd := currentDirEntries_blind hf.state
  unfold fsRemove
  simp only [fsReady_blind h, hf.answer, hd.answer]
  apply PathBlind.ite
  · intro _
    exact pathBlind h
  · intro _
    cases (findEntryInCurrent name s).1.idx with
    | none => exact pathBlind hf.state
    | some i =>
      apply PathBlind.ite
      · intro _
        exact pathBlind hd.state
      · intro _
        exact removeEntry_blind hd.state i

theorem fsWriteRaw_blind (name data : List UInt8) :
    PathBlind (fsWriteRaw name data s) (fsWriteRaw name data s') := by
  have hf := findEntryInCurrent_blind h name
  have hd := currentDirEntries_blind hf.state
  unfold fsWriteRaw
  simp only [fsReady_blind h, hf.answer, hd.answer]
  apply PathBlind.ite
  · intro _
    exact pathBlind h
  · intro _
    apply PathBlind.ite
    · intro _
      exact pathBlind hd.state
    · intro _
      cases (findEntryInCurrent name s).1.idx with
      | some i => exact writeEntry_blind hd.state i data
      | none =>
        cases (findEntryInCurrent name s).1.freeIdx with
        | none => exact pathBlind hd.state
        | some i => exact writeEntry_blind (hd.state.setEnt i _) i data

theorem fsReadPtr_blind (name : List UInt8) : PathBlind (fsReadPtr name s) (fsReadPtr name s') := by
  have hf := findEntryInCurrent_blind h name
  have hd := currentDirEntries_blind hf.state
  unfold fsReadPtr
  simp only [fsReady_blind h, hf.answer, hd.answer]
  apply PathBlind.ite
  · intro _
    exact pathBlind h
  · intro _
    cases (findEntryInCurrent name s).1.idx with
    | none => exact pathBlind hf.state
    | some i =>
      simp only [ent_blind hd.state i]
      apply PathBlind.ite
      · intro _
        exact pathBlind hd.state
      · intro _
        apply PathBlind.ite
        · intro _
          obtain ⟨p, hs⟩ := hd.state
          rw [hs]
          exact pathBlind ⟨p, rfl⟩
        · intro _
          exact loadClusterChain_blind hd.state _ _

theorem fsAppend_blind (name text : List UInt8) :
    PathBlind (fsAppend name text s) (fsAppend name text s') := by
  have hr := fsReadPtr_blind h name
  unfold fsAppend
  simp only [fsReady_blind h, hr.answer, hr.state.readCache]
  apply PathBlind.ite
  · intro _
    exact pathBlind h
  · intro _
    apply PathBlind.ite
    · intro _
      exact pathBlind hr.state
    · intro _
      apply fsWriteRaw_blind
      obtain ⟨p, hs⟩ := hr.state
      rw [hs]
      exact ⟨p, rfl⟩

theorem fsMkdir_blind (name : List UInt8) : PathBlind (fsMkdir name s) (fsMkdir name s') := by
  have hf := findEntryInCurrent_blind h name
  unfold fsMkdir
  simp only [fsReady_blind h, hf.answer]
  apply PathBlind.ite
  · intro _
    exact pathBlind h
  · intro _
    -- The same branch is taken on both sides, since none of the answers depends on the
    -- path string.
    cases (findEntryInCurrent name s).1.idx with
    | some i => exact pathBlind hf.state
    | none =>
      cases (findEntryInCurrent name s).1.freeIdx with
      | none => exact pathBlind hf.state
      | some i =>
        obtain ⟨p, hs⟩ := hf.state
        simp only [hs]
        apply PathBlind.ite
        · intro _
          exact pathBlind ⟨p, rfl⟩
        · intro _
          apply PathBlind.ite
          · intro _
            exact pathBlind ⟨p, rfl⟩
          · intro _
            have hd := currentDirEntries_blind (s := { (findEntryInCurrent name s).2 with
              fatBuf := (allocCluster (findEntryInCurrent name s).2.fatBuf).2
              dev := (diskWriteSectors .fsMkdir
                (clusterLba (allocCluster (findEntryInCurrent name s).2.fatBuf).1) 1
                (newDir (allocCluster (findEntryInCurrent name s).2.fatBuf).1
                  (findEntryInCurrent name s).2.currentDirCluster)
                (findEntryInCurrent name s).2.dev).2 }) ⟨p, rfl⟩
            simp only [hd.answer]
            apply PathBlind.ite
            · intro _
              exact pathBlind hd.state
            · intro _
              exact flushes_blind (hd.state.setEnt i _) (-6)

theorem fsRmdir_blind (name : List UInt8) : PathBlind (fsRmdir name s) (fsRmdir name s') := by
  have hf := findEntryInCurrent_blind h name
  have hd := currentDirEntries_blind hf.state
  unfold fsRmdir
  simp only [fsReady_blind h, hf.answer, hd.answer]
  apply PathBlind.ite
  · intro _
    exact pathBlind h
  · intro _
    cases (findEntryInCurrent name s).1.idx with
    | none => exact pathBlind hf.state
    | some i =>
      simp only [ent_blind hd.state i]
      apply PathBlind.ite
      · intro _
        exact pathBlind hd.state
      · intro _
        apply PathBlind.ite
        · intro _
          exact pathBlind hd.state
        · intro _
          obtain ⟨p, hs⟩ := hd.state
          simp only [hs]
          apply PathBlind.ite
          · intro _
            exact pathBlind ⟨p, rfl⟩
          · intro _
            apply PathBlind.ite
            · intro _
              exact pathBlind ⟨p, rfl⟩
            · intro _
              exact rmdirEntry_blind ⟨p, rfl⟩ i

theorem fsIsDir_blind (name : List UInt8) : PathBlind (fsIsDir name s) (fsIsDir name s') := by
  have hf := findEntryInCurrent_blind h name
  have hd := currentDirEntries_blind hf.state
  unfold fsIsDir
  simp only [fsReady_blind h, hf.answer, hd.answer]
  apply PathBlind.ite
  · intro _
    exact pathBlind h
  · intro _
    cases (findEntryInCurrent name s).1.idx with
    | none => exact pathBlind hf.state
    | some i =>
      simp only [ent_blind hd.state i]
      apply PathBlind.ite
      · intro _
        exact pathBlind hd.state
      · intro _
        exact pathBlind hd.state

end Calls

end OsU
