import OsU.Fs.Dir

/-!
# What the driver stores in `read_cache`

`read_cache` is the driver's buffer for the contents of files, and the caller of
`fs_read_ptr` is left with a pointer into it. Only `fs_read_ptr` and `fs_append` store
there, and not beyond the size of the file they find and the text they add.

This is a frame condition that nobody states in the source, and `script_run` depends on
it: it goes on reading from the pointer while the commands of its script run. The bound
is one on indices, the terminator included, and all other functions of the driver are
shown to leave the buffer as it is, one by one.
-/

set_option autoImplicit false

namespace OsU

/-- The size of the file a name finds in the current directory. -/
def foundSize (name : List UInt8) (s : Fs) : Option Nat :=
  if s.fsReady = false then none
  else
    let f := findEntryInCurrent name s
    match f.1.idx with
    | none => none
    | some idx =>
      let d := currentDirEntries f.2
      if d.1 = false then none else some (d.2.ent idx).fileSize

/-! ## Calls that leave it alone -/

section Frame

variable (s : Fs)

@[simp] theorem currentDirEntries_readCache : (currentDirEntries s).2.readCache = s.readCache := by
  unfold currentDirEntries
  split <;> rfl

@[simp] theorem findEntryInCurrent_readCache (name : List UInt8) :
    (findEntryInCurrent name s).2.readCache = s.readCache := by
  unfold findEntryInCurrent
  split
  · rfl
  · dsimp only
    split
    · exact currentDirEntries_readCache s
    · exact currentDirEntries_readCache s

@[simp] theorem flushFat_readCache : (flushFat s).2.readCache = s.readCache := rfl

@[simp] theorem flushCurrentDir_readCache : (flushCurrentDir s).2.readCache = s.readCache := by
  unfold flushCurrentDir
  split <;> rfl

@[simp] theorem dropChain_readCache (idx : Nat) : (dropChain idx s).readCache = s.readCache := by
  unfold dropChain
  split
  · exact setEnt_readCache _ _ _
  · rfl

theorem writeLoop_readCache (data : List UInt8) (n first prev written : Nat) :
    (writeLoop data n first prev written s).2.readCache = s.readCache := by
  induction n generalizing first prev written s with
  | zero => rfl
  | succ n ih =>
    rw [writeLoop]
    split
    · dsimp only
      generalize (if first = 0 then (allocCluster s.fatBuf).1 else first) = first'
      generalize (if prev ≠ 0 then fatSet (allocCluster s.fatBuf).2 prev (allocCluster s.fatBuf).1
        else (allocCluster s.fatBuf).2) = fat
      generalize (if data.length - written > 512 then 512 else data.length - written) = take
      split
      · rfl
      · split
        · rfl
        · exact ih _ _ _ _
    · rfl

@[simp] theorem writeClusterChain_readCache (data : List UInt8) :
    (writeClusterChain data s).2.readCache = s.readCache := by
  unfold writeClusterChain
  split
  · rfl
  · exact writeLoop_readCache s data _ _ _ _

/-- The two flushes that end a change. -/
theorem flushes_readCache (e₁ e₂ : Int) :
    (let f := flushFat s
      if f.1 ≠ 0 then (e₁, f.2)
      else
        let g := flushCurrentDir f.2
        if g.1 ≠ 0 then (e₂, g.2) else (0, g.2)).2.readCache = s.readCache := by
  dsimp only
  split
  · rfl
  · split
    · exact flushCurrentDir_readCache _
    · exact flushCurrentDir_readCache _

@[simp] theorem writeEntry_readCache (idx : Nat) (data : List UInt8) :
    (writeEntry idx data s).2.readCache = s.readCache := by
  unfold writeEntry
  dsimp only
  split
  · simp
  · exact (flushes_readCache _ _ _).trans (by simp)

@[simp] theorem fsTouch_readCache (name : List UInt8) : (fsTouch name s).2.readCache = s.readCache := by
  unfold fsTouch
  split
  · rfl
  · dsimp only
    split
    · simp
    · split
      · simp
      · split <;> simp

@[simp] theorem fsRemove_readCache (name : List UInt8) :
    (fsRemove name s).2.readCache = s.readCache := by
  unfold fsRemove
  split
  · rfl
  · dsimp only
    split
    · simp
    · split
      · simp
      · refine (flushes_readCache _ _ _).trans ?_
        split <;> simp

@[simp] theorem fsWriteRaw_readCache (name data : List UInt8) :
    (fsWriteRaw name data s).2.readCache = s.readCache := by
  unfold fsWriteRaw
  split
  · rfl
  · dsimp only
    split
    · simp
    · split
      · simp
      · split <;> simp

@[simp] theorem fsMkdir_readCache (name : List UInt8) : (fsMkdir name s).2.readCache = s.readCache := by
  unfold fsMkdir
  split
  · rfl
  · dsimp only
    split
    · simp
    · split
      · simp
      · split
        · simp
        · split
          · simp
          · split
            · simp
            · exact (flushes_readCache _ _ _).trans (by simp)

@[simp] theorem fsRmdir_readCache (name : List UInt8) : (fsRmdir name s).2.readCache = s.readCache := by
  unfold fsRmdir
  split
  · rfl
  · dsimp only
    split
    · simp
    · split
      · simp
      · split
        · simp
        · split
          · simp
          · split
            · simp
            · exact (flushes_readCache _ _ _).trans (by simp)

theorem chdirRelative_readCache (path : List UInt8) :
    (chdirRelative path s).2.readCache = s.readCache := by
  unfold chdirRelative
  split
  · split
    · rfl
    · dsimp only
      split <;> simp
  · dsimp only
    split
    · simp
    · split
      · simp
      · split <;> simp

@[simp] theorem fsChdir_readCache (path : List UInt8) : (fsChdir path s).2.readCache = s.readCache := by
  unfold fsChdir
  split
  · rfl
  · split
    · dsimp only
      split
      · rfl
      · exact chdirRelative_readCache _ _
    · exact chdirRelative_readCache _ _

@[simp] theorem fsGetcwd_readCache : (fsGetcwd s).2.readCache = s.readCache := by
  unfold fsGetcwd
  dsimp only
  split <;> rfl

@[simp] theorem fsListDirEntry_readCache (index : Nat) :
    (fsListDirEntry index s).2.readCache = s.readCache := by
  unfold fsListDirEntry listCurrent
  split
  · rfl
  · dsimp only
    split <;> simp

end Frame

/-! ## Reads -/

/-- The loop that loads a file stays below its size. -/
theorem loadLoop_keeps {size : Nat} (n c : Nat) {copied : Nat} (hc : copied ≤ size) (s : Fs) :
    (∀ k, (loadLoop size n c copied s).1 = some k → k ≤ size) ∧
      ∀ i, size ≤ i → (loadLoop size n c copied s).2.readCache i = s.readCache i := by
  induction n generalizing c copied s with
  | zero =>
    refine ⟨fun k hk => ?_, fun i _ => rfl⟩
    obtain rfl := Option.some.inj hk
    exact hc
  | succ n ih =>
    rw [loadLoop]
    split
    · rename_i hin
      dsimp only
      generalize htake : (if size - copied > 512 then 512 else size - copied) = take
      have hle : copied + take ≤ size := by
        rw [← htake]
        split <;> omega
      split
      · exact ⟨fun k hk => (nomatch hk), fun i _ => rfl⟩
      · -- the sector is copied below `copied + take`
        have hcopy : ∀ (src : ByteMem) i, size ≤ i →
            s.readCache.copy copied src take i = s.readCache i := by
          intro src i hi
          rw [ByteMem.copy_apply, if_neg]
          intro hlt
          exact absurd (hlt.2.trans_le hle) (Nat.not_lt.mpr hi)
        split
        · refine ⟨fun k hk => ?_, fun i hi => hcopy _ i hi⟩
          obtain rfl := Option.some.inj hk
          exact hle
        · obtain ⟨hlen, hkeep⟩ := ih (fatGet s.fatBuf c) hle
            { s with
              dev := (diskReadSectors (clusterLba c) 1 (fun _ => 0) s.dev).2.2
              readCache := s.readCache.copy copied
                (diskReadSectors (clusterLba c) 1 (fun _ => 0) s.dev).2.1 take }
          exact ⟨hlen, fun i hi => (hkeep i hi).trans (hcopy _ i hi)⟩
    · refine ⟨fun k hk => ?_, fun i _ => rfl⟩
      obtain rfl := Option.some.inj hk
      exact hc

theorem loadClusterChain_keeps (first size : Nat) (s : Fs) :
    (∀ k, (loadClusterChain first size s).1 = some k → k ≤ size) ∧
      ∀ i, size < i → (loadClusterChain first size s).2.readCache i = s.readCache i := by
  unfold loadClusterChain
  dsimp only
  generalize hcap : (if size > fsMaxFileSize then fsMaxFileSize else size) = cap
  have hle : cap ≤ size := by
    rw [← hcap]
    split <;> omega
  obtain ⟨hlen, hkeep⟩ := loadLoop_keeps cap first (Nat.zero_le cap) s
  split
  · rename_i hnone
    refine ⟨fun k hk => ?_, fun i hi => hkeep i (hle.trans (Nat.le_of_lt hi))⟩
    rw [hnone] at hk
    exact nomatch hk
  · rename_i copied hsome
    have hcopied : copied ≤ size := (hlen copied hsome).trans hle
    refine ⟨fun k hk => ?_, fun i hi => ?_⟩
    · obtain rfl := Option.some.inj hk
      exact hcopied
    · show (loadLoop cap cap first 0 s).2.readCache.put copied 0 i = _
      rw [ByteMem.put_apply, if_neg (Nat.ne_of_gt (hcopied.trans_lt hi))]
      exact hkeep i (hle.trans (Nat.le_of_lt hi))

/-- `fs_read_ptr` reports no more than the size of the file, and stores nothing beyond it but the
terminator. -/
theorem fsReadPtr_keeps (name : List UInt8) (s : Fs) :
    (∀ k, (fsReadPtr name s).1 = some k → ∃ size, foundSize name s = some size ∧ k ≤ size) ∧
      ∀ i, (∀ size, foundSize name s = some size → size < i) →
        (fsReadPtr name s).2.readCache i = s.readCache i := by
  unfold fsReadPtr foundSize
  by_cases hready : s.fsReady = false
  · rw [if_pos hready, if_pos hready]
    exact ⟨fun k hk => (nomatch hk), fun i _ => rfl⟩
  · rw [if_neg hready, if_neg hready]
    dsimp only
    cases (findEntryInCurrent name s).1.idx with
    | none => exact ⟨fun k hk => (nomatch hk), fun i _ => by simp⟩
    | some idx =>
      dsimp only
      generalize hd : currentDirEntries (findEntryInCurrent name s).2 = d
      have hcache : d.2.readCache = s.readCache := by rw [← hd]; simp
      by_cases hread : d.1 = false
      · rw [if_pos hread, if_pos hread]
        exact ⟨fun k hk => (nomatch hk), fun i _ => congrFun hcache i⟩
      · rw [if_neg hread, if_neg hread]
        split
        · refine ⟨fun k hk => ⟨_, rfl, ?_⟩, fun i hi => ?_⟩
          · obtain rfl := Option.some.inj hk
            exact Nat.zero_le _
          · -- Of an empty file the zero behind it is all that is stored.
            have hpos : 0 < i := (Nat.zero_le _).trans_lt (hi _ rfl)
            show d.2.readCache.put 0 0 i = _
            rw [ByteMem.put_apply, if_neg (Nat.ne_of_gt hpos), hcache]
        · obtain ⟨hlen, hkeep⟩ :=
            loadClusterChain_keeps (d.2.ent idx).fstClusLo (d.2.ent idx).fileSize d.2
          exact ⟨fun k hk => ⟨_, rfl, hlen k hk⟩, fun i hi => by rw [hkeep i (hi _ rfl), hcache]⟩

/-- The last byte `fs_append` can store: the terminator behind the old bytes and the text, and what
`fs_read_ptr` has stored before it. -/
def appendReach (name text : List UInt8) (s : Fs) : Option Nat :=
  if s.fsReady = false then none
  else
    let n := (fsReadPtr name s).1.getD 0 + (cstr text).length
    if n > fsMaxFileSize then foundSize name s else some (max n ((foundSize name s).getD 0))

theorem fsAppend_keeps (name text : List UInt8) (s : Fs) {i : Nat}
    (hi : ∀ r, appendReach name text s = some r → r < i) :
    (fsAppend name text s).2.readCache i = s.readCache i := by
  unfold appendReach at hi
  unfold fsAppend
  split
  · rfl
  · rename_i hready
    rw [if_neg hready] at hi
    dsimp only at hi ⊢
    have hkeep := (fsReadPtr_keeps name s).2 i
    split
    · rename_i hbig
      rw [if_pos hbig] at hi
      exact hkeep hi
    · rename_i hbig
      rw [if_neg hbig] at hi
      have hlt := hi _ rfl
      rw [fsWriteRaw_readCache]
      dsimp only
      rw [ByteMem.put_apply, if_neg (by omega), ByteMem.copy_apply, if_neg (by omega)]
      refine hkeep fun size hsize => ?_
      rw [hsize] at hlt
      exact (le_max_right _ _).trans_lt hlt

end OsU
