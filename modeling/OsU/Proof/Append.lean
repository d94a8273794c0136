import OsU.Proof.Ownership
import OsU.Proof.RoundTrip

/-!
# An append that loses the old data

`fs_append` reads the file with `fs_read_ptr` and writes what it read and the text. A
null pointer stands for a name that is not there, and also for a read that failed: then
the file is written with the text alone. The call returns 0 when the reads and writes
that follow succeed, and the old content is gone.

What a name holds is said with a device that works (`Fs.mend`), since the failing one
may fail again when the content is looked at. The condition counts polls from the start
of the call: the reads of the old file, of which one is the first to fail, and behind it
those of a write of the text, which all succeed. A device that fails once and recovers
is enough.
-/

set_option autoImplicit false

namespace OsU

/-- The driver with a device that works. -/
def Fs.mend (s : Fs) : Fs := { s with dev := { s.dev with ok := fun _ => true } }

/-! ## Reads that fail -/

theorem currentDirEntries_failed {s : Fs} (h0 : s.currentDirCluster ≠ 0)
    (hok : s.dev.ok s.dev.clock = false) :
    currentDirEntries s = (false, { s with dev := { s.dev with clock := s.dev.clock + 1 } }) := by
  have hno : ¬ s.dev.ok s.dev.clock = true := by simp [hok]
  rw [currentDirEntries, if_neg h0, diskReadSectors_one, if_neg hno]
  rfl

/-- A failure while the name is looked up: the null pointer, behind the poll that failed. -/
theorem fsReadPtr_lookup_failed {s : Fs} (hs : s.AtDir) (hready : s.fsReady = true)
    {name : List UInt8} {i k : Nat} (hi : (s.seek name).idx = some i)
    (hk : k < 2 * dirReads s.currentDirCluster) (hf : s.dev.FailsAt k) :
    (fsReadPtr name s).1 = none ∧ (fsReadPtr name s).2.dev.clock = s.dev.clock + (k + 1) := by
  have h0 : s.currentDirCluster ≠ 0 := by
    intro h0
    rw [dirReads, if_pos h0] at hk
    exact absurd hk (Nat.not_lt_zero k)
  have hone : dirReads s.currentDirCluster = 1 := if_neg h0
  have hup : ¬ s.fsReady = false := by simp [hready]
  obtain ⟨hname, -⟩ := seek_found hi
  rw [hone] at hk
  rw [fsReadPtr, if_neg hup]
  cases k with
  | zero =>
    -- the scan does not get its directory
    have hfind : findEntryInCurrent name s =
        (⟨none, none⟩, { s with dev := { s.dev with clock := s.dev.clock + 1 } }) := by
      rw [findEntryInCurrent, hname]
      simp only [currentDirEntries_failed h0 hf.fails, if_true]
    rw [hfind]
    exact ⟨rfl, rfl⟩
  | succ k =>
    -- the second look does not
    obtain rfl : k = 0 := by omega
    have hvalid : validName name = true := valid_of_found hi
    rcases findEntryInCurrent_cases hs name with ⟨-, -, t, he, hl⟩ | ⟨hno, -⟩
    · have hclock := hl.clock
      rw [hone] at hclock
      have hfails := hf.fails
      rw [Nat.zero_add, ← hclock, ← hl.ok] at hfails
      have hlook := currentDirEntries_failed (by rw [hl.currentDirCluster]; exact h0) hfails
      rw [he]
      simp only [hi, hlook, if_true]
      refine ⟨trivial, ?_⟩
      rw [hclock]
    · rw [hone] at hno
      exact absurd ⟨hvalid, fun j hj => hf.runs j (by omega)⟩ hno

/-- **Reading a name that is there**: its bytes, or the null pointer behind the first poll that
failed. -/
theorem fsReadPtr_polls {s : Fs} (hs : s.AtDir) (hready : s.fsReady = true) {name : List UInt8}
    {i : Nat} (hi : (s.seek name).idx = some i) {a : List UInt8}
    (ha : fileBytes s.volume (s.volume.slot s.currentDirCluster i) = a) :
    (s.dev.Runs (2 * dirReads s.currentDirCluster + sectorsFor a.length) →
      s.reads name = some a) ∧
    ∀ k < 2 * dirReads s.currentDirCluster + sectorsFor a.length, s.dev.FailsAt k →
      (fsReadPtr name s).1 = none ∧ (fsReadPtr name s).2.dev.clock = s.dev.clock + (k + 1) := by
  have hvalid := valid_of_found hi
  have hup : ¬ s.fsReady = false := by simp [hready]
  -- behind the lookup, the walk of the chain
  have hload : s.dev.Runs (2 * dirReads s.currentDirCluster) → ∃ t : Fs,
      t.dev.ok = s.dev.ok ∧ t.dev.clock = s.dev.clock + 2 * dirReads s.currentDirCluster ∧
      (t.dev.Runs (sectorsFor a.length) → s.reads name = some a) ∧
      ∀ k < sectorsFor a.length, t.dev.FailsAt k →
        (fsReadPtr name s).1 = none ∧ (fsReadPtr name s).2.dev.clock = t.dev.clock + (k + 1) := by
    intro hr
    obtain ⟨-, -, ⟨-, -, hf, he, hl⟩ | ⟨hno, -⟩⟩ := open_cases hs name
    · refine ⟨_, hl.ok, hl.clock, ?_⟩
      have hent := hl.ent i (seek_found hi).2.slot_lt
      rw [Fs.reads, fsReadPtr, if_neg hup]
      simp only [hf, hi, he, Bool.true_eq_false, if_false, hent]
      by_cases hz : (s.volume.slot s.currentDirCluster i).fileSize = 0 ∨
          (s.volume.slot s.currentDirCluster i).fstClusLo < fatClusterMin
      · rw [fileBytes, if_pos hz] at ha
        subst ha
        rw [if_pos hz]
        exact ⟨fun _ => rfl, fun k hk => absurd hk (Nat.not_lt_zero k)⟩
      · rw [if_neg hz]
        have hwalk := loadClusterChain_walked (currentDirEntries (findEntryInCurrent name s).2).2 hz
        rwa [hl.volume, ha] at hwalk
    · exact absurd ⟨hvalid, hr⟩ hno
  constructor
  · intro hr
    obtain ⟨t, hok, hclock, hdone, -⟩ := hload fun k hk => hr k (by omega)
    exact hdone ((Device.runs_add hok hclock).mp hr).2
  · intro k hk hf
    rcases Nat.lt_or_ge k (2 * dirReads s.currentDirCluster) with hlt | hge
    · exact fsReadPtr_lookup_failed hs hready hi hlt hf
    · obtain ⟨j, rfl⟩ := Nat.exists_eq_add_of_le hge
      obtain ⟨t, hok, hclock, -, hfailed⟩ := hload fun m hm => hf.runs m (by omega)
      obtain ⟨hnone, hc⟩ := hfailed j (by omega) ((Device.failsAt_add hok hclock).mp hf).2
      refine ⟨hnone, ?_⟩
      rw [hc, hclock]
      omega

/-- A name that is not there gives the null pointer. -/
theorem fsReadPtr_absent {s : Fs} (hs : s.AtDir) {name : List UInt8}
    (hi : (s.seek name).idx = none) : (fsReadPtr name s).1 = none := by
  by_cases hup : s.fsReady = false
  · rw [fsReadPtr, if_pos hup]
  · rw [fsReadPtr, if_neg hup]
    rcases findEntryInCurrent_cases hs name with ⟨-, -, t, he, -⟩ | ⟨-, t, he, -⟩
    · simp only [he, hi]
    · simp only [he]

/-! ## Writes that succeed -/

/-- The polls of an `fs_write_raw` of `n` bytes that succeeds: the directory twice, the
sectors of the data, and the two flushes. -/
def Fs.writePolls (s : Fs) (n : Nat) : Nat :=
  2 * dirReads s.currentDirCluster + (sectorsFor n + (32 + dirSectors s.currentDirCluster))

/-- **`fs_write_raw` returns 0** exactly when it has a slot, room, and every poll succeeds. -/
theorem fsWriteRaw_code {s : Fs} (hs : s.AtDir) (name data : List UInt8) :
    (fsWriteRaw name data s).1 = 0 ↔ s.fsReady = true ∧ data.length ≤ fsMaxFileSize ∧
      ∃ i e, s.writeSlot name = some (i, e) ∧
        sectorsFor data.length ≤ (s.freeAfter e.fstClusLo).card ∧
        s.dev.Runs (s.writePolls data.length) := by
  rcases fsWriteRaw_cases hs name data with ⟨hr, hno⟩ | ⟨i, e, u, hw, hp, hclock, hok, he⟩
  · refine iff_of_false hr.code ?_
    rintro ⟨hready, hfits, i, e, hslot, -, hruns⟩
    exact hno i e ⟨hready, hfits, hslot, fun k hk => hruns k (Nat.lt_add_right _ hk)⟩
  · have hslot : ∀ i' e', s.writeSlot name = some (i', e') → e' = e := by
      intro i' e' h
      rw [hw.slot, Option.some.injEq, Prod.mk.injEq] at h
      exact h.2.symm
    -- The polls of the call: the directory, then those of the data and the two flushes.
    have hadd := Device.runs_add
      (n := sectorsFor data.length + (32 + dirSectors s.currentDirCluster)) hok hclock
    rw [he]
    rcases writeEntry_cases hp data with ⟨ws, hc, -, hwhy⟩ |
      ⟨t, l, hpt, hc, hroom, hruns, -, htc, -⟩
    · refine iff_of_false (by rw [hc]; decide) ?_
      rintro ⟨-, -, i', e', hs', hroom, hruns⟩
      rw [hslot i' e' hs'] at hroom
      have hu := (hadd.mp hruns).2
      exact hwhy ⟨hroom, fun k hk => hu k (Nat.lt_add_right _ hk)⟩
    · obtain ⟨w, -, hwr⟩ := hpt.wrote
      have htok : t.dev.ok = u.dev.ok := hwr.ok.trans hok.symm
      have hadd' := Device.runs_add (n := 32 + dirSectors s.currentDirCluster) htok htc
      rw [hc, (commit_finish (show (-4 : Int) ≠ 0 by decide) (hpt.atDir hs)).code,
        hpt.currentDirCluster]
      constructor
      · intro hfin
        exact ⟨hw.ready, hw.fits, i, e, hw.slot, hroom, hadd.mpr ⟨hw.runs, hadd'.mpr ⟨hruns, hfin⟩⟩⟩
      · rintro ⟨-, -, i', e', -, -, hall⟩
        exact (hadd'.mp (hadd.mp hall).2).2

/-! ## The append

`fs_append` reads the old content first and does not look at how that went. A read that
fails counts as an empty file, and the write behind it makes it one with the text alone. -/

theorem Quiet.writeSlot {s t : Fs} (h : Quiet s t) (name : List UInt8) :
    t.writeSlot name = s.writeSlot name := by
  rw [Fs.writeSlot, Fs.writeSlot, h.seek, h.volume, h.currentDirCluster]

/-- The same edit, on a device that works. -/
theorem Done.mend {s s' : Fs} {p : Prop} {i first : Nat} {e : FatDirEntry} {l ws : List Nat}
    (h : Done s s' p i e first l ws) : Done s.mend s'.mend p i e first l ws where
  toEdit := h.toEdit
  fsReady := h.fsReady
  currentDirCluster := h.currentDirCluster
  currentPath := h.currentPath
  slot_lt := h.slot_lt
  slot_new := h.slot_new
  slot_old := h.slot_old
  sector_old := h.sector_old
  ok := rfl
  log := h.log

section Append
variable {s : Fs} {name text : List UInt8} (hdir : IsDir s.volume s.currentDirCluster)
  (hC : ChainsOk s.volume) (hfile : s.FileOrAbsent name)
include hdir hC hfile

/-- **An append that returned 0** reads back, on a device that works, what it wrote. -/
theorem append_reads_back (h0 : (fsAppend name text s).1 = 0) :
    (fsAppend name text s).2.mend.reads name = some (s.appended name text) := by
  have hs := hdir.atDir
  rcases fsAppend_cases hs name text with hr | he
  · exact absurd h0 hr.code
  · have hq := appendState_quiet hs name text
    rw [he] at h0 ⊢
    obtain ⟨i, e, l, hslot, hready, hfits, hd, hlen, hhold⟩ := fsWriteRaw_done (hq.atDir hs) h0
    have hst : Stored (s.appendState name text).mend
        (fsWriteRaw name (s.appended name text) (s.appendState name text)).2.mend name
        (s.appended name text) i e l :=
      ⟨hslot, hready, hfits, fun _ => rfl, hd.mend, hlen, hhold⟩
    have hvol : (s.appendState name text).mend.volume = s.volume := hq.volume
    have hcwd : (s.appendState name text).mend.currentDirCluster = s.currentDirCluster :=
      hq.currentDirCluster
    refine hst.reads_back ?_ ?_ (hq.fileOrAbsent name |>.mpr hfile)
    · rw [hvol]
      exact hC.owned
    · rw [hvol, hcwd]
      exact hdir

end Append

/-- The stored content of a name, empty if it is not there. -/
def Fs.stored (s : Fs) (name : List UInt8) : List UInt8 := (s.mend.reads name).getD []

theorem stored_eq {s : Fs} (hs : s.AtDir) (hready : s.fsReady = true) (name : List UInt8) :
    s.stored name = ((s.seek name).idx.map fun i =>
      fileBytes s.volume (s.volume.slot s.currentDirCluster i)).getD [] := by
  have hg : s.mend.dev.Good := fun _ => rfl
  have hreads := reads_eq (s := s.mend) hs hg hready name
  rw [Fs.stored, hreads]
  rfl

/-- The device fails under `fs_read_ptr` and works for the `fs_write_raw` behind it: poll `k` is
the first of the reads of a file with content that fails, and all those of a write of `text`, for
which there is room, succeed. -/
def Fs.LosesOld (s : Fs) (name text : List UInt8) : Prop :=
  s.fsReady = true ∧ (cstr text).length ≤ fsMaxFileSize ∧ ∃ i, (s.seek name).idx = some i ∧
    s.stored name ≠ [] ∧
    sectorsFor (cstr text).length ≤
      (s.freeAfter (s.volume.slot s.currentDirCluster i).fstClusLo).card ∧
    ∃ k < 2 * dirReads s.currentDirCluster + sectorsFor (s.stored name).length,
      s.dev.FailsAt k ∧
      Device.Runs { s.dev with clock := s.dev.clock + (k + 1) } (s.writePolls (cstr text).length)

section Failed
variable {s : Fs} {name text : List UInt8} {i k : Nat} (hs : s.AtDir) (hready : s.fsReady = true)
  (hi : (s.seek name).idx = some i)
  (hk : k < 2 * dirReads s.currentDirCluster + sectorsFor (s.stored name).length)
  (hf : s.dev.FailsAt k)
include hs hready hi hk hf

/-- When the read fails, the text alone is written, from the next poll on. -/
theorem append_failed_read : s.appended name text = cstr text ∧
    (s.appendState name text).dev.clock = s.dev.clock + (k + 1) := by
  have ha := stored_eq hs hready name
  rw [hi] at ha
  obtain ⟨hnone, hclock⟩ := (fsReadPtr_polls hs hready hi ha.symm).2 k hk hf
  refine ⟨?_, hclock⟩
  rw [Fs.appended, hnone]
  rfl

/-- The append then returns 0 when there is room for the text, and the rest of the polls
succeed. -/
theorem append_failed_read_code : (fsAppend name text s).1 = 0 ↔
    (cstr text).length ≤ fsMaxFileSize ∧
    sectorsFor (cstr text).length ≤
      (s.freeAfter (s.volume.slot s.currentDirCluster i).fstClusLo).card ∧
    Device.Runs { s.dev with clock := s.dev.clock + (k + 1) }
      (s.writePolls (cstr text).length) := by
  obtain ⟨hdata, hclock⟩ : s.appended name text = cstr text ∧
      (s.appendState name text).dev.clock = s.dev.clock + (k + 1) :=
    append_failed_read hs hready hi hk hf
  have hq := appendState_quiet hs name text
  have hup : ¬ s.fsReady = false := by simp [hready]
  have hslot : s.writeSlot name = some (i, s.volume.slot s.currentDirCluster i) := by
    rcases hsk : s.seek name with ⟨_ | j, free⟩
    · rw [hsk] at hi
      exact nomatch hi
    · rw [hsk] at hi
      obtain rfl : j = i := Option.some.inj hi
      rw [Fs.writeSlot, hsk]
  -- The failed read has changed the clock and nothing that the write looks at.
  have hfree : ∀ first, (s.appendState name text).freeAfter first = s.freeAfter first := by
    intro first
    rw [Fs.freeAfter, Fs.freeAfter, hq.fatBuf]
  have hpolls : ∀ n, (s.appendState name text).writePolls n = s.writePolls n := by
    intro n
    rw [Fs.writePolls, Fs.writePolls, hq.currentDirCluster]
  have hruns : ∀ n, (s.appendState name text).dev.Runs n ↔
      Device.Runs { s.dev with clock := s.dev.clock + (k + 1) } n := by
    intro n
    simp only [Device.Runs, hq.ok, hclock]
  have hcode := fsWriteRaw_code (hq.atDir hs) name (cstr text)
  rw [hq.writeSlot, hslot, hq.fsReady, hpolls, hruns] at hcode
  simp only [hfree] at hcode
  rw [fsAppend_eq, if_neg hup, hdata]
  by_cases hbig : (cstr text).length > fsMaxFileSize
  · rw [if_pos hbig]
    refine iff_of_false (show ¬ (-1 : Int) = 0 by decide) ?_
    rintro ⟨hle, -⟩
    exact absurd hbig (Nat.not_lt.mpr hle)
  · rw [if_neg hbig, hcode]
    constructor
    · rintro ⟨-, hle, _, _, he, hroom, hr⟩
      obtain ⟨rfl, rfl⟩ := Prod.mk.inj (Option.some.inj he)
      exact ⟨hle, hroom, hr⟩
    · rintro ⟨hle, hroom, hr⟩
      exact ⟨hready, hle, _, _, rfl, hroom, hr⟩

end Failed

/-- **An append keeps the old data exactly when no read of it fails behind the caller's
back.** An append that returned 0 should leave what the name held and the text; what it
held is looked at with a device that works, before and after. -/
theorem append_keeps_iff {s : Fs} (hdir : IsDir s.volume s.currentDirCluster)
    (hC : ChainsOk s.volume) {name : List UInt8} (hfile : s.FileOrAbsent name) (text : List UInt8) :
    ((fsAppend name text s).1 = 0 →
      (fsAppend name text s).2.mend.reads name = some (s.stored name ++ cstr text)) ↔
    ¬ s.LosesOld name text := by
  have hs := hdir.atDir
  constructor
  · intro hkeep ⟨hready, hfits, i, hi, hold, hroom, k, hk, hf, hruns⟩
    have h0 := (append_failed_read_code hs hready hi hk hf).mpr ⟨hfits, hroom, hruns⟩
    have hback := append_reads_back hdir hC hfile h0
    rw [(append_failed_read hs hready hi hk hf).1, hkeep h0, Option.some.injEq] at hback
    exact hold (List.append_left_eq_self.mp hback)
  · intro hno h0
    have hready : s.fsReady = true := by
      by_contra hup
      rw [fsAppend, if_pos (by simpa using hup)] at h0
      exact absurd h0 (show ¬ (-1 : Int) = 0 by decide)
    rw [append_reads_back hdir hC hfile h0, Option.some.injEq]
    have ha := stored_eq hs hready name
    cases hi : (s.seek name).idx with
    | none =>
      -- nothing is there, and nothing is read
      rw [hi] at ha
      rw [ha, Fs.appended, fsReadPtr_absent hs hi]
      rfl
    | some i =>
      rcases s.dev.runs_or_fails (2 * dirReads s.currentDirCluster +
        sectorsFor (s.stored name).length) with hr | ⟨k, hk, hf⟩
      · have ha' := ha
        rw [hi] at ha'
        rw [appended_eq, (fsReadPtr_polls hs hready hi ha'.symm).1 hr]
        rfl
      · -- the read failed: harmless, as there was nothing to read
        obtain ⟨hfits, hroom, hruns⟩ := (append_failed_read_code hs hready hi hk hf).mp h0
        have hnil : s.stored name = [] := by
          by_contra hold
          exact hno ⟨hready, hfits, i, hi, hold, hroom, k, hk, hf, hruns⟩
        rw [(append_failed_read hs hready hi hk hf).1, hnil, List.nil_append]

/-! ## Two appends -/

/-- The fresh volume with three bytes in a file. -/
def filedFs : Fs := (fsWriteRaw [0x46] [1, 2, 3] freshFs).2

/-- That volume on a device whose next poll fails. -/
def flakyFs : Fs :=
  { filedFs with dev := { filedFs.dev with ok := fun n => n ≠ filedFs.dev.clock } }

theorem filedFs_wf : filedFs.dev.Good ∧ IsDir filedFs.volume filedFs.currentDirCluster ∧
    ChainsOk filedFs.volume ∧ filedFs.FileOrAbsent [0x46] := by
  have h0 : (fsWriteRaw [0x46] [1, 2, 3] freshFs).1 = 0 := by decide +kernel
  have hfile := freshFs_fileOrAbsent [0x46]
  obtain ⟨i, e, l, hst⟩ := fsWriteRaw_stored freshFs_isDir.atDir freshFs_good h0
  refine ⟨hst.good, ?_, hst.chainsOk freshFs_empty.chainsOk freshFs_isDir hfile, ?_⟩
  · have hcwd : filedFs.currentDirCluster = freshFs.currentDirCluster := by decide +kernel
    rw [hcwd]
    exact hst.isDir freshFs_empty.chainsOk.owned freshFs_isDir hfile freshFs_isDir
  · intro i hi
    have hslot : (filedFs.seek [0x46]).idx = some 0 := by decide +kernel
    obtain rfl : i = 0 := Option.some.inj (hi.symm.trans hslot)
    decide +kernel

/-- Only the polls of the two differ: the tree is sound, and the name is a file's. -/
theorem flakyFs_wf : IsDir flakyFs.volume flakyFs.currentDirCluster ∧ ChainsOk flakyFs.volume ∧
    flakyFs.FileOrAbsent [0x46] := by
  obtain ⟨-, hdir, hC, -⟩ := filedFs_wf
  refine ⟨hdir, hC, fun i hi => ?_⟩
  have hslot : (flakyFs.seek [0x46]).idx = some 0 := by decide +kernel
  obtain rfl : i = 0 := Option.some.inj (hi.symm.trans hslot)
  decide +kernel

/-- The append returns 0, and the three bytes are gone. -/
theorem append_loses :
    (IsDir flakyFs.volume flakyFs.currentDirCluster ∧ ChainsOk flakyFs.volume ∧
      flakyFs.FileOrAbsent [0x46]) ∧
    flakyFs.fsReady = true ∧ flakyFs.stored [0x46] = [1, 2, 3] ∧
    (fsAppend [0x46] [4] flakyFs).1 = 0 ∧
    (fsAppend [0x46] [4] flakyFs).2.mend.reads [0x46] = some [4] ∧
    ¬ ((fsAppend [0x46] [4] flakyFs).1 = 0 →
      (fsAppend [0x46] [4] flakyFs).2.mend.reads [0x46] =
        some (flakyFs.stored [0x46] ++ cstr [4])) :=
  ⟨flakyFs_wf, by decide +kernel⟩

/-- Where every poll succeeds, the three bytes are there with the fourth behind them. -/
theorem append_keeps_iff_filed :
    filedFs.stored [0x46] = [1, 2, 3] ∧
    (fsAppend [0x46] [4] filedFs).2.mend.reads [0x46] = some [1, 2, 3, 4] := by
  obtain ⟨hg, hdir, hC, hfile⟩ := filedFs_wf
  have h0 : (fsAppend [0x46] [4] filedFs).1 = 0 := by decide +kernel
  have hsafe : ¬ filedFs.LosesOld [0x46] [4] := by
    rintro ⟨-, -, i, -, -, -, k, -, hfails, -⟩
    exact absurd (hg _) (by simpa using hfails.2)
  have hold : filedFs.stored [0x46] = [1, 2, 3] := by decide +kernel
  have hkept := (append_keeps_iff hdir hC hfile [4]).mpr hsafe h0
  rw [hold] at hkept
  exact ⟨hold, hkept⟩

end OsU
