import OsU.Volume.Tree

/-!
# Looking at the current directory

`find_entry_in_current` and `current_dir_entries` change nothing that lasts (`Quiet`):
in the root they do nothing at all, elsewhere they read the sector of the directory, and
a read that fails is the only way they fail. A look that succeeds leaves the entries of
the volume behind `ent` (`Loaded`), and the answer of the scan is the answer on the
volume (`Fs.seek`), so what an operation finds is a matter of the state it starts in.

Every operation looks twice, once for the name and once for the entries, and in a
subdirectory each look reads the sector again. Nothing has been written between the two,
so the second sees what the first saw, and `open_cases` takes both together.

What a scan comes to is one of three: the slot of the first live entry of the name, the
first vacant slot, or neither. `Found` and `Offered` say the first two on the volume,
with all that the scan has passed on the way.
-/

set_option autoImplicit false

namespace OsU

/-- Only the clock of the device and the two scratch buffers may differ. It is what a
lookup and a read do to the driver: the sectors go to `dir_buf` and `read_cache`, and
the clock counts them. -/
structure Quiet (s s' : Fs) : Prop where
  fatBuf : s'.fatBuf = s.fatBuf
  rootBuf : s'.rootBuf = s.rootBuf
  fsReady : s'.fsReady = s.fsReady
  currentDirCluster : s'.currentDirCluster = s.currentDirCluster
  currentPath : s'.currentPath = s.currentPath
  sectors : s'.dev.sectors = s.dev.sectors
  ok : s'.dev.ok = s.dev.ok
  written : s'.dev.written = s.dev.written

namespace Quiet

variable {s s' s'' : Fs}

theorem refl (s : Fs) : Quiet s s := ⟨rfl, rfl, rfl, rfl, rfl, rfl, rfl, rfl⟩

theorem trans (h : Quiet s s') (h' : Quiet s' s'') : Quiet s s'' :=
  ⟨h'.fatBuf.trans h.fatBuf, h'.rootBuf.trans h.rootBuf, h'.fsReady.trans h.fsReady,
    h'.currentDirCluster.trans h.currentDirCluster, h'.currentPath.trans h.currentPath,
    h'.sectors.trans h.sectors, h'.ok.trans h.ok, h'.written.trans h.written⟩

theorem volume (h : Quiet s s') : s'.volume = s.volume := by
  simp only [Fs.volume, h.fatBuf, h.rootBuf, h.sectors]

theorem wrote (h : Quiet s s') : Wrote s.dev s'.dev [] :=
  ⟨h.ok, by rw [h.written, List.append_nil], fun _ _ => by rw [h.sectors]⟩

theorem good (h : Quiet s s') (hg : s.dev.Good) : s'.dev.Good := fun n => by rw [h.ok, hg n]

theorem dev (s : Fs) (c : Nat) : Quiet s { s with dev := { s.dev with clock := c } } :=
  ⟨rfl, rfl, rfl, rfl, rfl, rfl, rfl, rfl⟩

theorem readCache (h : Quiet s s') (m : ByteMem) : Quiet s { s' with readCache := m } :=
  ⟨h.fatBuf, h.rootBuf, h.fsReady, h.currentDirCluster, h.currentPath, h.sectors, h.ok, h.written⟩

end Quiet

/-- The current directory has an address: it is the root or a cluster number of 16 bits. -/
def Fs.AtDir (s : Fs) : Prop := DirNo s.currentDirCluster ∧ s.currentDirCluster < 65536

theorem Quiet.atDir {s s' : Fs} (h : Quiet s s') (hs : s.AtDir) : s'.AtDir := by
  rw [Fs.AtDir, h.currentDirCluster]
  exact hs

/-- The sectors read to look at a directory. -/
def dirReads (d : Nat) : Nat := if d = 0 then 0 else 1

/-- The entries of the current directory are behind `ent`, after `n` reads. -/
structure Loaded (s s' : Fs) (n : Nat) : Prop extends Quiet s s' where
  ent : ∀ i < maxEntries s.currentDirCluster, s'.ent i = s.volume.slot s.currentDirCluster i
  clock : s'.dev.clock = s.dev.clock + n

theorem Device.runs_add {d d' : Device} {m n : Nat} (hok : d'.ok = d.ok)
    (hc : d'.clock = d.clock + m) : d.Runs (m + n) ↔ d.Runs m ∧ d'.Runs n := by
  constructor
  · intro h
    refine ⟨fun k hk => h k (by omega), fun k hk => ?_⟩
    rw [hok, hc, Nat.add_assoc]
    exact h (m + k) (by omega)
  · rintro ⟨h₁, h₂⟩ k hk
    by_cases hkm : k < m
    · exact h₁ k hkm
    · have := h₂ (k - m) (by omega)
      rwa [hok, hc, show d.clock + m + (k - m) = d.clock + k by omega] at this

theorem Loaded.then {s s' s'' : Fs} {m n : Nat} (h : Quiet s s')
    (hc : s'.dev.clock = s.dev.clock + m) (h' : Loaded s' s'' n) : Loaded s s'' (m + n) where
  toQuiet := h.trans h'.toQuiet
  ent := by
    have := h'.ent
    rwa [h.currentDirCluster, h.volume] at this
  clock := by rw [h'.clock, hc, Nat.add_assoc]

/-! ## `current_dir_entries` -/

theorem currentDirEntries_cases {s : Fs} (hs : s.AtDir) :
    (s.dev.Runs (dirReads s.currentDirCluster) ∧ ∃ s', currentDirEntries s = (true, s') ∧
      Loaded s s' (dirReads s.currentDirCluster)) ∨
    (¬ s.dev.Runs (dirReads s.currentDirCluster) ∧ ∃ s', currentDirEntries s = (false, s') ∧
      Quiet s s') := by
  by_cases h0 : s.currentDirCluster = 0
  · left
    rw [currentDirEntries, if_pos h0]
    simp only [dirReads, h0, if_true]
    refine ⟨fun k hk => absurd hk (by omega), s, rfl, Quiet.refl s, fun i _ => ?_, rfl⟩
    rw [Fs.ent, Fs.entBuf, h0, if_pos rfl]
    rfl
  · rw [currentDirEntries, if_neg h0, diskReadSectors_one, clusterLba_mod hs.2]
    simp only [dirReads, if_neg h0]
    by_cases hok : s.dev.ok s.dev.clock = true
    · left
      rw [if_pos hok]
      refine ⟨fun k hk => ?_, _, rfl, ⟨rfl, rfl, rfl, rfl, rfl, rfl, rfl, rfl⟩, fun i hi => ?_, rfl⟩
      · obtain rfl : k = 0 := by omega
        exact hok
      · rw [maxEntries, if_neg h0] at hi
        simp only [Fs.ent, Fs.entBuf, if_neg h0, Volume.slot, Fs.volume]
        exact entryAt_copy_mem _ _ hi
    · right
      rw [if_neg hok]
      exact ⟨fun hr => hok (hr 0 (by omega)), _, rfl, ⟨rfl, rfl, rfl, rfl, rfl, rfl, rfl, rfl⟩⟩

/-! ## `find_entry_in_current` -/

/-- The scan of a directory of the volume. -/
def lookup (v : Volume) (d : Nat) (f11 : List UInt8) : FindResult :=
  findLoop (v.slot d) f11 (maxEntries d) 0 none

/-- The scan of the current directory for a name, on the volume. -/
def Fs.seek (s : Fs) (name : List UInt8) : FindResult :=
  match fatNameFromInput name with
  | none => ⟨none, none⟩
  | some f11 => lookup s.volume s.currentDirCluster f11

theorem Quiet.seek {s s' : Fs} (h : Quiet s s') (name : List UInt8) : s'.seek name = s.seek name := by
  simp only [Fs.seek, h.volume, h.currentDirCluster]

theorem findLoop_congr {ent ent' : Nat → FatDirEntry} (f11 : List UInt8) {n i : Nat}
    (h : ∀ k, i ≤ k → k < i + n → ent k = ent' k) (ff : Option Nat) :
    findLoop ent f11 n i ff = findLoop ent' f11 n i ff := by
  induction n generalizing i ff with
  | zero => rfl
  | succ n ih =>
    have hi := h i (Nat.le_refl i) (by omega)
    have ih' : ∀ ff, findLoop ent f11 n (i + 1) ff = findLoop ent' f11 n (i + 1) ff :=
      ih fun k h₁ h₂ => h k (by omega) (by omega)
    simp only [findLoop, hi, ih']

/-- The scan runs on the volume, or it was refused: the name is malformed or the read failed. -/
theorem findEntryInCurrent_cases {s : Fs} (hs : s.AtDir) (name : List UInt8) :
    (validName name = true ∧ s.dev.Runs (dirReads s.currentDirCluster) ∧
      ∃ s', findEntryInCurrent name s = (s.seek name, s') ∧
        Loaded s s' (dirReads s.currentDirCluster)) ∨
    (¬ (validName name = true ∧ s.dev.Runs (dirReads s.currentDirCluster)) ∧
      ∃ s', findEntryInCurrent name s = (⟨none, none⟩, s') ∧ Quiet s s') := by
  cases hf : fatNameFromInput name with
  | none =>
    right
    refine ⟨fun h => ?_, s, by rw [findEntryInCurrent, hf], Quiet.refl s⟩
    rw [validName, hf] at h
    exact absurd h.1 (by decide)
  | some f11 =>
    have hv : validName name = true := by rw [validName, hf]; rfl
    rcases currentDirEntries_cases hs with ⟨hr, s', he, hl⟩ | ⟨hr, s', he, hq⟩
    · left
      refine ⟨hv, hr, s', ?_, hl⟩
      simp only [findEntryInCurrent, hf, he, Fs.seek, Bool.true_eq_false, if_false, lookup,
        hl.currentDirCluster]
      rw [findLoop_congr f11 fun k _ hk => hl.ent k (by omega)]
    · right
      refine ⟨fun h => hr h.2, s', ?_, hq⟩
      simp only [findEntryInCurrent, hf, he, if_true]

/-- A name was found or a slot offered: the name is well formed. -/
theorem valid_of_seek {s : Fs} {name : List UInt8} (h : s.seek name ≠ ⟨none, none⟩) :
    ∃ f11, fatNameFromInput name = some f11 ∧ s.seek name = lookup s.volume s.currentDirCluster f11 ∧
      nameBytes name = f11 := by
  cases hf : fatNameFromInput name with
  | none => exact absurd (by rw [Fs.seek, hf]) h
  | some f11 => exact ⟨f11, rfl, by rw [Fs.seek, hf], by rw [nameBytes, hf]; rfl⟩

/-- The scan and the second look that the operations make after it. -/
theorem open_cases {s : Fs} (hs : s.AtDir) (name : List UInt8) :
    Quiet s (findEntryInCurrent name s).2 ∧
    Quiet s (currentDirEntries (findEntryInCurrent name s).2).2 ∧
    ((validName name = true ∧ s.dev.Runs (2 * dirReads s.currentDirCluster) ∧
      (findEntryInCurrent name s).1 = s.seek name ∧
      (currentDirEntries (findEntryInCurrent name s).2).1 = true ∧
      Loaded s (currentDirEntries (findEntryInCurrent name s).2).2
        (2 * dirReads s.currentDirCluster)) ∨
    (¬ (validName name = true ∧ s.dev.Runs (2 * dirReads s.currentDirCluster)) ∧
      ((findEntryInCurrent name s).1 = ⟨none, none⟩ ∨
        (currentDirEntries (findEntryInCurrent name s).2).1 = false))) := by
  rw [Nat.two_mul]
  rcases findEntryInCurrent_cases hs name with ⟨hv, hr, s', he, hl⟩ | ⟨hno, s', he, hq⟩
  · have hadd := Device.runs_add (n := dirReads s.currentDirCluster) hl.ok hl.clock
    -- The directory is read again for the entries: below the root that takes another
    -- poll.
    rcases currentDirEntries_cases (hl.toQuiet.atDir hs) with ⟨hr', s'', he', hl'⟩ | ⟨hr', s'', he', hq'⟩
    · rw [hl.currentDirCluster] at hr' hl'
      simp only [he, he']
      exact ⟨hl.toQuiet, hl.toQuiet.trans hl'.toQuiet,
        Or.inl ⟨hv, hadd.mpr ⟨hr, hr'⟩, trivial, trivial, hl'.then hl.toQuiet hl.clock⟩⟩
    · rw [hl.currentDirCluster] at hr'
      simp only [he, he']
      exact ⟨hl.toQuiet, hl.toQuiet.trans hq',
        Or.inr ⟨fun h => hr' (hadd.mp h.2).2, Or.inr trivial⟩⟩
  · have hq' : Quiet s (currentDirEntries s').2 := by
      rcases currentDirEntries_cases (hq.atDir hs) with ⟨-, s'', he', hl'⟩ | ⟨-, s'', he', hq'⟩
      · rw [he']
        exact hq.trans hl'.toQuiet
      · rw [he']
        exact hq.trans hq'
    simp only [he]
    refine ⟨hq, hq', Or.inr ⟨fun h => hno ⟨h.1, fun k hk => h.2 k (by omega)⟩, Or.inl trivial⟩⟩

/-! ## What a scan says about the directory -/

/-- Slot `i` of directory `d` is the one a scan for `f11` finds: it has the name, and
before it there is neither the name nor the end of the directory. -/
structure Found (v : Volume) (d : Nat) (f11 : List UInt8) (i : Nat) : Prop where
  slot_lt : i < maxEntries d
  live : (v.slot d i).Live
  name11 : (v.slot d i).name11 = f11
  before : ∀ j < i, (v.slot d j).lead ≠ 0x00 ∧ ((v.slot d j).Live → (v.slot d j).name11 ≠ f11)

/-- A scan for `f11` finds nothing, and slot `i` of directory `d` is the first vacant one. -/
structure Offered (v : Volume) (d : Nat) (f11 : List UInt8) (i : Nat) : Prop where
  slot_lt : i < maxEntries d
  vacant : (v.slot d i).Vacant
  before : ∀ j < i, ¬ (v.slot d j).Vacant
  absent : ∀ j, ¬ Found v d f11 j

theorem lookup_idx {v : Volume} {d i : Nat} {f11 : List UInt8} (hf : f11.length = 11) :
    (lookup v d f11).idx = some i ↔ Found v d f11 i := by
  rw [lookup, findLoop_idx_eq_some hf]
  constructor
  · intro ⟨hr, hl, hn⟩
    have hlt := hr.lt
    exact ⟨by omega, hl, hn, fun j hj => not_stops.mp (hr.before j (Nat.zero_le j) hj)⟩
  · intro h
    have hlt := h.slot_lt
    exact ⟨⟨Nat.zero_le i, by omega, fun j _ hj => not_stops.mpr (h.before j hj)⟩, h.live, h.name11⟩

theorem lookup_free {v : Volume} {d i : Nat} {f11 : List UInt8} (hf : f11.length = 11)
    (h : lookup v d f11 = ⟨none, some i⟩) : Offered v d f11 i := by
  have hidx : (lookup v d f11).idx = none := by rw [h]
  have hfree : (lookup v d f11).freeIdx = some i := by rw [h]
  have habs : ∀ j, ¬ Found v d f11 j := fun j hj => by
    rw [(lookup_idx hf).mpr hj] at hidx
    exact absurd hidx (by simp)
  obtain ⟨hr, hv⟩ := findLoop_freeIdx hidx hfree
  have hlt := hr.lt
  exact ⟨by omega, hv, fun j hj => hr.before j (Nat.zero_le j) hj, habs⟩

/-- A slot in reach of the scan with that name: the scan finds it, or one before it. -/
theorem Offered.name_ne {v : Volume} {d i : Nat} {f11 : List UInt8} (h : Offered v d f11 i) {j : Nat}
    (hj : j < maxEntries d) (hreach : ∀ k < j, (v.slot d k).lead ≠ 0x00)
    (hl : (v.slot d j).Live) : (v.slot d j).name11 ≠ f11 := by
  induction j using Nat.strong_induction_on with
  | _ j ih =>
    intro hn
    refine h.absent j ⟨hj, hl, hn, fun k hk => ⟨hreach k hk, fun hkl => ?_⟩⟩
    exact ih k hk (by omega) (fun m hm => hreach m (by omega)) hkl

theorem seek_found {s : Fs} {name : List UInt8} {i : Nat} (h : (s.seek name).idx = some i) :
    fatNameFromInput name = some (nameBytes name) ∧
      Found s.volume s.currentDirCluster (nameBytes name) i := by
  obtain ⟨f11, hf, hsk, hnb⟩ := valid_of_seek (show s.seek name ≠ ⟨none, none⟩ from
    fun hn => by simp [hn] at h)
  rw [hsk, lookup_idx (length_of_fatNameFromInput hf)] at h
  exact ⟨by rw [hf, hnb], by rw [hnb]; exact h⟩

theorem seek_offered {s : Fs} {name : List UInt8} {i : Nat} (h : s.seek name = ⟨none, some i⟩) :
    fatNameFromInput name = some (nameBytes name) ∧
      Offered s.volume s.currentDirCluster (nameBytes name) i := by
  obtain ⟨f11, hf, hsk, hnb⟩ := valid_of_seek (show s.seek name ≠ ⟨none, none⟩ by simp [h])
  rw [hsk] at h
  exact ⟨by rw [hf, hnb], by rw [hnb]; exact lookup_free (length_of_fatNameFromInput hf) h⟩

/-- A found slot is an owner's: its name was made by the encoder. -/
theorem Found.owns {v : Volume} {d i : Nat} {name f11 : List UInt8} (h : Found v d f11 i)
    (hf : fatNameFromInput name = some f11) : (v.slot d i).Owns :=
  FatDirEntry.owns_of_name hf h.name11 h.live.2

end OsU
