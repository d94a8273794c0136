import OsU.Proof.Ops
import OsU.Volume.Content

/-!
# The operations that change nothing

Reading and listing are quiet whatever the device does. On a device whose transfers
succeed, `fs_read_ptr` returns the bytes of the entry the scan finds (`reads_eq`), and
`fs_append` is `fs_write_raw` of the old bytes and the text.

The walk over a chain is compared with the bytes of the chain on the volume
(`chainBytes`), which is defined for any table, cyclic ones included: both follow the
words of the table, and both stop at the size in the entry or at a word that is no
cluster. So the reading of a damaged volume is specified as well as that of a sound one,
and soundness is needed only to say what the bytes are.

When a transfer fails the read gives nothing, and what it has stored in `read_cache` by
then stays there; the cache is no part of the volume, which is why that is quiet.
-/

set_option autoImplicit false

namespace OsU

/-- The bytes `fs_read_ptr` hands out; `none` for its null return. -/
def Fs.reads (s : Fs) (name : List UInt8) : Option (List UInt8) :=
  (fsReadPtr name s).1.map (fsReadPtr name s).2.readCache.toList

/-! ## `load_cluster_chain` -/

theorem loadLoop_quiet (size n c copied : Nat) (s : Fs) : Quiet s (loadLoop size n c copied s).2 := by
  induction n generalizing c copied s with
  | zero => exact Quiet.refl s
  | succ n ih =>
    simp only [loadLoop, diskReadSectors_one]
    split
    · split
      · simp only [ne_eq, not_true_eq_false, if_false]
        have hq : ∀ m, Quiet s { s with
            dev := { s.dev with clock := s.dev.clock + 1 }, readCache := m } := fun m =>
          (Quiet.dev s _).readCache m
        split
        · exact hq _
        · exact (hq _).trans (ih _ _ _)
      · exact Quiet.dev s _
    · exact Quiet.refl s

theorem loadClusterChain_quiet (first size : Nat) (s : Fs) :
    Quiet s (loadClusterChain first size s).2 := by
  simp only [loadClusterChain]
  split
  · exact loadLoop_quiet _ _ _ _ _
  · exact (loadLoop_quiet _ _ _ _ _).readCache _

theorem toList_copy (m src : ByteMem) (a n : Nat) :
    (m.copy a src n).toList (a + n) = m.toList a ++ src.toList n := by
  rw [ByteMem.toList_add]
  congr 1
  · refine ByteMem.toList_congr fun i hi => ?_
    rw [ByteMem.copy_apply, if_neg (by omega)]
  · refine ByteMem.toList_congr fun i hi => ?_
    rw [ByteMem.copy_apply, if_pos (by omega), Nat.add_sub_cancel_left]

theorem toList_put (m : ByteMem) (n : Nat) (b : UInt8) : (m.put n b).toList n = m.toList n :=
  ByteMem.toList_congr fun i hi => by rw [ByteMem.put_apply, if_neg (by omega)]

/-- Poll `k` from now on is the first that fails. -/
structure Device.FailsAt (d : Device) (k : Nat) : Prop where
  runs : d.Runs k
  fails : d.ok (d.clock + k) = false

/-- Of `n` polls all succeed, or one is the first to fail. -/
theorem Device.runs_or_fails (d : Device) (n : Nat) : d.Runs n ∨ ∃ k < n, d.FailsAt k := by
  induction n with
  | zero => exact Or.inl fun k hk => absurd hk (Nat.not_lt_zero k)
  | succ n ih =>
    rcases ih with hr | ⟨k, hk, hf⟩
    · cases hok : d.ok (d.clock + n) with
      | false => exact Or.inr ⟨n, Nat.lt_succ_self n, hr, hok⟩
      | true =>
        left
        intro k hk
        rcases Nat.lt_succ_iff_lt_or_eq.mp hk with hk | rfl
        · exact hr k hk
        · exact hok
    · exact Or.inr ⟨k, Nat.lt_succ_of_lt hk, hf⟩

/-- The first failure, seen after polls that succeeded. -/
theorem Device.failsAt_add {d d' : Device} {m k : Nat} (hok : d'.ok = d.ok)
    (hc : d'.clock = d.clock + m) : d.FailsAt (m + k) ↔ d.Runs m ∧ d'.FailsAt k := by
  have hadd := Device.runs_add (n := k) hok hc
  constructor
  · intro h
    obtain ⟨hm, hk⟩ := hadd.mp h.runs
    refine ⟨hm, hk, ?_⟩
    rw [hok, hc, Nat.add_assoc]
    exact h.fails
  · intro ⟨hm, h⟩
    refine ⟨hadd.mpr ⟨hm, h.runs⟩, ?_⟩
    have hf := h.fails
    rwa [hok, hc, Nat.add_assoc] at hf

theorem chainBytes_zero (v : Volume) (n c : Nat) : chainBytes v n c 0 = [] := by
  cases n with
  | zero => rfl
  | succ n => exact if_neg fun h => Nat.not_lt_zero 0 h.2

/-- The result of the walk over the bytes `b`, from `s` and `copied` on: all of them, or
nothing, behind the first read that failed. There is one poll of the device for every
512 bytes that are begun. -/
structure Walked (s : Fs) (copied : Nat) (b : List UInt8) (r : Option Nat × Fs) : Prop where
  done : s.dev.Runs (sectorsFor b.length) → r.1 = some (copied + b.length) ∧
    r.2.readCache.toList (copied + b.length) = s.readCache.toList copied ++ b
  failed : ∀ k < sectorsFor b.length, s.dev.FailsAt k →
    r.1 = none ∧ r.2.dev.clock = s.dev.clock + (k + 1)

theorem Walked.nil (s : Fs) (copied : Nat) : Walked s copied [] (some copied, s) where
  done := fun _ => ⟨rfl, by simp⟩
  failed := fun k hk => absurd hk (Nat.not_lt_zero k)

/-- One round reads the bytes `a`, and the rest of the walk the bytes `b`. -/
theorem Walked.cons {s t : Fs} {copied : Nat} {a b : List UInt8} {r : Option Nat × Fs}
    (hok : t.dev.ok = s.dev.ok) (hc : t.dev.clock = s.dev.clock + 1)
    (hcache : t.readCache.toList (copied + a.length) = s.readCache.toList copied ++ a)
    (hlen : sectorsFor (a ++ b).length = 1 + sectorsFor b.length)
    (hgo : s.dev.Runs 1) (h : Walked t (copied + a.length) b r) : Walked s copied (a ++ b) r := by
  rw [List.length_append] at hlen
  constructor
  · intro hr
    rw [List.length_append, hlen, Device.runs_add hok hc] at hr
    obtain ⟨h₁, h₂⟩ := h.done hr.2
    rw [List.length_append, ← Nat.add_assoc, h₁, h₂, hcache, List.append_assoc]
    exact ⟨rfl, rfl⟩
  · intro k hk hf
    rw [List.length_append, hlen] at hk
    cases k with
    | zero =>
      have hfirst := hgo 0 Nat.zero_lt_one
      rw [hf.fails] at hfirst
      exact nomatch hfirst
    | succ k =>
      rw [Nat.add_comm k 1] at hf
      obtain ⟨h₁, h₂⟩ := h.failed k (by omega) ((Device.failsAt_add hok hc).mp hf).2
      refine ⟨h₁, ?_⟩
      rw [h₂, hc]
      omega

/-- **The walk reads the bytes of the chain**, a sector for every 512 of them, after those it has
already. -/
theorem loadLoop_walked (size n c copied : Nat) (s : Fs) :
    Walked s copied (chainBytes s.volume n c (size - copied)) (loadLoop size n c copied s) := by
  induction n generalizing c copied s with
  | zero => exact Walked.nil s copied
  | succ n ih =>
    simp only [loadLoop, chainBytes]
    by_cases hc : InRange c ∧ copied < size
    · have hcr := inRange_iff.mp hc.1
      have hc' : InRange c ∧ 0 < size - copied := ⟨hc.1, by omega⟩
      rw [if_pos hc, if_pos hc', diskReadSectors_one, clusterLba_mod (show c < 65536 by omega)]
      generalize ht : (if size - copied > 512 then 512 else size - copied) = take
      have htake : 0 < take ∧ take ≤ 512 ∧ (take < 512 → size - copied - take = 0) := by
        split at ht <;> omega
      -- the rest of the chain, empty unless this sector was a whole one
      generalize hrest : (if 0xFFF8 ≤ s.volume.fat c ∨ s.volume.fat c = 0 then []
        else chainBytes s.volume n (s.volume.fat c) (size - copied - take)) = rest
      have hsize : sectorsFor (((s.volume.sector c).mem.toList take) ++ rest).length =
          1 + sectorsFor rest.length := by
        rw [List.length_append, ByteMem.length_toList, sectorsFor, sectorsFor]
        by_cases hlt : take < 512
        · have hnil : rest = [] := by
            rw [← hrest, htake.2.2 hlt, chainBytes_zero, ite_self]
          rw [hnil, List.length_nil]
          omega
        · omega
      by_cases hok : s.dev.ok s.dev.clock = true
      · rw [if_pos hok]
        simp only [ne_eq, not_true_eq_false, if_false]
        have hbytes : (ByteMem.copy (fun _ => 0) 0 (s.dev.sectors (4135 + c)).mem 512).toList take =
            (s.volume.sector c).mem.toList take := by
          refine ByteMem.toList_congr fun i hi => ?_
          rw [ByteMem.copy_apply, if_pos (by omega), Nat.sub_zero]
          rfl
        have hone : s.dev.Runs 1 := fun k hk => by
          obtain rfl : k = 0 := by omega
          exact hok
        generalize hs₁ : ({ s with
          dev := { s.dev with clock := s.dev.clock + 1 }
          readCache := s.readCache.copy copied
            (ByteMem.copy (fun _ => 0) 0 (s.dev.sectors (4135 + c)).mem 512) take } : Fs) = s₁
        have hq : Quiet s s₁ := by
          rw [← hs₁]
          exact (Quiet.dev s _).readCache _
        have hclock : s₁.dev.clock = s.dev.clock + 1 := by rw [← hs₁]
        have hcache : s₁.readCache.toList (copied + ((s.volume.sector c).mem.toList take).length) =
            s.readCache.toList copied ++ (s.volume.sector c).mem.toList take := by
          rw [← hs₁, ByteMem.length_toList]
          exact (toList_copy _ _ _ _).trans (by rw [hbytes])
        refine Walked.cons hq.ok hclock hcache hsize hone ?_
        rw [ByteMem.length_toList, ← hrest]
        have hfat : s.volume.fat c = fatGet s.fatBuf c := rfl
        rw [hfat]
        split
        · exact Walked.nil s₁ _
        · have hwalk := ih (fatGet s.fatBuf c) (copied + take) s₁
          rwa [hq.volume, ← Nat.sub_sub] at hwalk
      · rw [if_neg hok]
        simp only [ne_eq, show ¬ (-1 : Int) = 0 by decide, not_false_eq_true, if_true]
        constructor
        · intro hr
          rw [hsize] at hr
          exact absurd (hr 0 (by omega)) hok
        · intro k _ hf
          cases k with
          | zero => exact ⟨rfl, rfl⟩
          | succ k => exact absurd (hf.runs 0 (Nat.succ_pos k)) hok
    · rw [if_neg hc, if_neg fun h => hc ⟨h.1, by omega⟩]
      exact Walked.nil s copied

/-- The call, on an entry with a chain. -/
theorem loadClusterChain_walked (s : Fs) {e : FatDirEntry}
    (he : ¬ (e.fileSize = 0 ∨ e.fstClusLo < fatClusterMin)) :
    (s.dev.Runs (sectorsFor (fileBytes s.volume e).length) →
      (loadClusterChain e.fstClusLo e.fileSize s).1.map
        (loadClusterChain e.fstClusLo e.fileSize s).2.readCache.toList =
          some (fileBytes s.volume e)) ∧
    ∀ k < sectorsFor (fileBytes s.volume e).length, s.dev.FailsAt k →
      (loadClusterChain e.fstClusLo e.fileSize s).1 = none ∧
      (loadClusterChain e.fstClusLo e.fileSize s).2.dev.clock = s.dev.clock + (k + 1) := by
  simp only [loadClusterChain, fileBytes, if_neg he]
  generalize (if e.fileSize > fsMaxFileSize then fsMaxFileSize else e.fileSize) = size
  have hwalk := loadLoop_walked size size e.fstClusLo 0 s
  rw [Nat.sub_zero] at hwalk
  generalize loadLoop size size e.fstClusLo 0 s = r at hwalk ⊢
  obtain ⟨c, t⟩ := r
  constructor
  · intro hr
    obtain ⟨h₁, h₂⟩ := hwalk.done hr
    simp only [Nat.zero_add] at h₁ h₂
    subst h₁
    rw [Option.map_some, toList_put, h₂]
    rfl
  · intro k hk hf
    obtain ⟨h₁, h₂⟩ := hwalk.failed k hk hf
    simp only at h₁ h₂
    subst h₁
    exact ⟨rfl, h₂⟩

/-! ## `fs_read_ptr` -/

theorem fsReadPtr_quiet {s : Fs} (hs : s.AtDir) (name : List UInt8) :
    Quiet s (fsReadPtr name s).2 := by
  by_cases hready : s.fsReady = false
  · rw [fsReadPtr, if_pos hready]
    exact Quiet.refl s
  · obtain ⟨hq, hq', -⟩ := open_cases hs name
    simp only [fsReadPtr, if_neg hready]
    split
    · exact hq
    · split
      · exact hq'
      · split
        · exact hq'.readCache _
        · exact hq'.trans (loadClusterChain_quiet _ _ _)

/-- **Reading a name reads the entry the scan finds.** -/
theorem reads_eq {s : Fs} (hs : s.AtDir) (hg : s.dev.Good) (hready : s.fsReady = true)
    (name : List UInt8) : s.reads name =
      (s.seek name).idx.map fun i => fileBytes s.volume (s.volume.slot s.currentDirCluster i) := by
  have hopen := open_cases hs name
  simp only [Fs.reads, fsReadPtr, hready, Bool.true_eq_false, if_false]
  generalize findEntryInCurrent name s = f at hopen ⊢
  generalize currentDirEntries f.2 = d at hopen ⊢
  obtain ⟨hq, hq', ⟨-, -, hf, he, hl⟩ | ⟨hno, hwhy⟩⟩ := hopen
  · rw [hf]
    cases hidx : (s.seek name).idx with
    | none => rfl
    | some i =>
      have hi := (seek_found hidx).2.slot_lt
      simp only [he, Bool.true_eq_false, if_false, hl.ent i hi, Option.map_some]
      by_cases hz : (s.volume.slot s.currentDirCluster i).fileSize = 0 ∨
          (s.volume.slot s.currentDirCluster i).fstClusLo < fatClusterMin
      · rw [if_pos hz, fileBytes, if_pos hz]
        rfl
      · have hg' := hl.good hg
        rw [if_neg hz, (loadClusterChain_walked d.2 hz).1 (hg'.runs _), hl.volume]
  · -- With a device that works the lookup fails only for a name that cannot be encoded.
    have hinv : validName name ≠ true := fun hv => hno ⟨hv, hg.runs _⟩
    have hnone : s.seek name = ⟨none, none⟩ := by
      by_contra hne
      obtain ⟨f11, hf, -⟩ := valid_of_seek hne
      exact hinv (by rw [validName, hf]; rfl)
    rw [hnone]
    rcases hwhy with h | h
    · rw [h]
      rfl
    · cases hidx : f.1.idx with
      | none => rfl
      | some i => simp [h]

/-! ## `fs_append` -/

/-- The data `fs_append` writes: the bytes `fs_read_ptr` returned, and the text. -/
def Fs.appended (s : Fs) (name text : List UInt8) : List UInt8 :=
  (fsReadPtr name s).2.readCache.toList ((fsReadPtr name s).1.getD 0) ++ cstr text

/-- The state in which `fs_append` calls `fs_write_raw`: the cache holds the data. -/
def Fs.appendState (s : Fs) (name text : List UInt8) : Fs :=
  let r := fsReadPtr name s
  let n := r.1.getD 0
  let add := (cstr text).length
  { r.2 with readCache := (r.2.readCache.copy n (ByteMem.ofList (cstr text)) add).put (n + add) 0 }

theorem fsAppend_eq (name text : List UInt8) (s : Fs) :
    fsAppend name text s =
      if s.fsReady = false then (-1, s)
      else if (s.appended name text).length > fsMaxFileSize then (-1, (fsReadPtr name s).2)
      else fsWriteRaw name (s.appended name text) (s.appendState name text) := by
  have hlen : (s.appended name text).length = (fsReadPtr name s).1.getD 0 + (cstr text).length := by
    rw [Fs.appended, List.length_append, ByteMem.length_toList]
  have hdata : (((fsReadPtr name s).2.readCache.copy ((fsReadPtr name s).1.getD 0)
      (ByteMem.ofList (cstr text)) (cstr text).length).put
      ((fsReadPtr name s).1.getD 0 + (cstr text).length) 0).toList
      ((fsReadPtr name s).1.getD 0 + (cstr text).length) = s.appended name text := by
    rw [Fs.appended, toList_put]
    refine (toList_copy _ _ _ _).trans ?_
    rw [ByteMem.toList_ofList]
  rw [hlen, fsAppend]
  by_cases hready : s.fsReady = false
  · rw [if_pos hready, if_pos hready]
  · simp only [if_neg hready, hdata]
    rfl

theorem appendState_quiet {s : Fs} (hs : s.AtDir) (name text : List UInt8) :
    Quiet s (s.appendState name text) := (fsReadPtr_quiet hs name).readCache _

/-- `fs_append` refuses, or is `fs_write_raw` after a quiet step. A file that cannot be
read counts as an empty one, also when it is there and a transfer failed. -/
theorem fsAppend_cases {s : Fs} (hs : s.AtDir) (name text : List UInt8) :
    Refused s (fsAppend name text s) ∨
      fsAppend name text s = fsWriteRaw name (s.appended name text) (s.appendState name text) := by
  rw [fsAppend_eq]
  split
  · exact Or.inl (refused (Quiet.refl s) (by decide))
  · split
    · exact Or.inl (refused (fsReadPtr_quiet hs name) (by decide))
    · exact Or.inr rfl

/-- On a device whose transfers succeed, the data is the old content and the text. -/
theorem appended_eq {s : Fs} (name text : List UInt8) :
    s.appended name text = (s.reads name).getD [] ++ cstr text := by
  rw [Fs.appended, Fs.reads]
  cases (fsReadPtr name s).1 with
  | none => rfl
  | some n => rfl

/-! ## Listings -/

theorem listCurrent_quiet {s : Fs} (hs : s.AtDir) (skip : FatDirEntry → Bool) (index : Nat) :
    Quiet s (listCurrent skip index s).2 := by
  simp only [listCurrent]
  split
  · exact Quiet.refl s
  · rcases currentDirEntries_cases hs with ⟨-, t, he, hl⟩ | ⟨-, t, he, hq⟩
    · rw [he]
      exact hl.toQuiet
    · rw [he]
      exact hq

theorem fsIsDir_quiet {s : Fs} (hs : s.AtDir) (name : List UInt8) : Quiet s (fsIsDir name s).2 := by
  obtain ⟨hq, hq', -⟩ := open_cases hs name
  simp only [fsIsDir]
  split
  · exact Quiet.refl s
  · split
    · exact hq
    · split
      · exact hq'
      · exact hq'

/-! ## `fs_chdir` -/

/-- What `fs_chdir` on a relative path can do. -/
theorem chdirRelative_cases {s : Fs} (hs : s.AtDir) (path : List UInt8) :
    Refused s (chdirRelative path s) ∨
    ((chdirRelative path s).1 = 0 ∧
      ((cstr path = [0x2E, 0x2E] ∧ s.currentDirCluster = 0 ∧ Quiet s (chdirRelative path s).2) ∨
        (cstr path = [0x2E, 0x2E] ∧ s.currentDirCluster ≠ 0 ∧
          Quiet { s with
            currentDirCluster := (s.volume.slot s.currentDirCluster 1).fstClusLo
            currentPath := parentPath s.currentPath } (chdirRelative path s).2) ∨
        ∃ i, (s.seek path).idx = some i ∧ (s.volume.slot s.currentDirCluster i).isDir = true ∧
          Quiet { s with
            currentDirCluster := (s.volume.slot s.currentDirCluster i).fstClusLo
            currentPath := childPath s.currentPath
              (fatNameToPrintable (s.volume.slot s.currentDirCluster i).name11) }
            (chdirRelative path s).2)) := by
  rw [chdirRelative]
  by_cases hup : cstr path = [0x2E, 0x2E]
  · rw [if_pos hup]
    by_cases h0 : s.currentDirCluster = 0
    · rw [if_pos h0]
      exact Or.inr ⟨rfl, Or.inl ⟨hup, h0, Quiet.refl s⟩⟩
    · rw [if_neg h0]
      rcases currentDirEntries_cases hs with ⟨-, t, he, hl⟩ | ⟨-, t, he, hq⟩
      · -- The parent is in the second entry of the directory, whatever is found there.
        have hmax : (1 : Nat) < maxEntries s.currentDirCluster := by
          rw [maxEntries, if_neg h0]
          omega
        simp only [he, Bool.true_eq_false, if_false, hl.ent 1 hmax, hl.currentPath]
        refine Or.inr ⟨trivial, Or.inr (Or.inl ⟨hup, h0, ?_⟩)⟩
        exact ⟨hl.fatBuf, hl.rootBuf, hl.fsReady, rfl, rfl, hl.sectors, hl.ok, hl.written⟩
      · left
        rw [he]
        exact refused hq (by decide)
  · rw [if_neg hup]
    have hopen := open_cases hs path
    simp only
    generalize findEntryInCurrent path s = f at hopen ⊢
    generalize currentDirEntries f.2 = d at hopen ⊢
    obtain ⟨hq, hq', ⟨-, -, hf, he, hl⟩ | ⟨hno, hwhy⟩⟩ := hopen
    · rw [hf]
      cases hidx : (s.seek path).idx with
      | none => exact Or.inl (refused hq (by decide))
      | some i =>
        have hi := (seek_found hidx).2.slot_lt
        simp only [he, Bool.true_eq_false, if_false, hl.ent i hi, hl.currentPath]
        by_cases hdir : (s.volume.slot s.currentDirCluster i).isDir = false
        · rw [if_pos hdir]
          exact Or.inl (refused hq' (by decide))
        · rw [if_neg hdir]
          refine Or.inr ⟨rfl, Or.inr (Or.inr ⟨i, rfl, by simpa using hdir, ?_⟩)⟩
          exact ⟨hl.fatBuf, hl.rootBuf, hl.fsReady, rfl, rfl, hl.sectors, hl.ok, hl.written⟩
    · left
      -- The lookup has failed, or it has found the name and the directory cannot be
      -- loaded again for its entry.
      rcases hwhy with h | h
      · rw [h]
        exact refused hq (by decide)
      · split
        · exact refused hq (by decide)
        · rw [if_pos h]
          exact refused hq' (by decide)

end OsU
