import Mathlib.Data.List.TakeWhile
import OsU.Kernel.Vfs
import OsU.Proof.FailedCd
import OsU.Proof.Names
import OsU.Proof.PathFrame
import OsU.Proof.Room
import OsU.Proof.Undo

/-!
# Absolute paths in front of the driver

`normalize` drops the slash in front of a path, and the driver looks the name up in the
current directory; `normalize_dir` keeps it, and `fs_chdir` goes to the root. So `/n`
means the root to `vfs_chdir` and the current directory to every other call.

What is meant by meaning the root is a comparison with the call made there: go to the
root, make the call on the name, and come back. Both must give the same answer and leave
the same tree, for every call of `vfs.c` that takes a path.

That fails whenever the name or a place for it is in either directory, because then some
call finds it in the one and not in the other, and the proof has a call for each case.
Where neither has a place every call is refused on both sides, with the same code, which
depends on the call and not on the directory (`VfsOp.refusal`).
-/

set_option autoImplicit false

namespace OsU

/-! ## The two normalizers on a name -/

theorem copied_of_nameChar (c : UInt8) :
    NameChar c ∨ c = 0x2E → c ≠ 0 ∧ c ≠ 0x20 ∧ c ≠ 0x2F ∧ c ≠ 0x5C := by
  revert c
  exact CString.forall_byte (by decide +kernel)

/-- The characters of a name, and its length. -/
theorem Name83.chars {n : List UInt8} (h : Name83 n) :
    1 ≤ n.length ∧ n.length ≤ 12 ∧ ∀ c ∈ n, c ≠ 0 ∧ c ≠ 0x20 ∧ c ≠ 0x2F ∧ c ≠ 0x5C := by
  obtain ⟨base, ext, h₁, h₂, h₃, hb, he, hn⟩ := h
  rcases hn with ⟨rfl, -⟩ | rfl
  · refine ⟨h₁, by omega, ?_⟩
    intro c hc
    exact copied_of_nameChar c (Or.inl (hb c hc))
  · simp only [List.length_append, List.length_cons]
    refine ⟨by omega, by omega, ?_⟩
    intro c hc
    rcases List.mem_append.mp hc with hc | hc
    · exact copied_of_nameChar c (Or.inl (hb c hc))
    · rcases List.mem_cons.mp hc with hc | hc
      · exact copied_of_nameChar c (Or.inr hc)
      · exact copied_of_nameChar c (Or.inl (he c hc))

theorem normalizeLoop_self {k : Nat} {l : List UInt8} (hlen : l.length ≤ k)
    (h : ∀ c ∈ l, c ≠ 0 ∧ c ≠ 0x20 ∧ c ≠ 0x2F ∧ c ≠ 0x5C) : normalizeLoop k l = some l := by
  induction l generalizing k with
  | nil =>
    cases k with
    | zero => rfl
    | succ k => rfl
  | cons c rest ih =>
    cases k with
    | zero => exact absurd hlen (Nat.not_succ_le_zero _)
    | succ k =>
      obtain ⟨h0, hblank, hslash, hback⟩ := h c List.mem_cons_self
      have hrest := ih (Nat.le_of_succ_le_succ hlen) fun b hb => h b (List.mem_cons_of_mem c hb)
      rw [normalizeLoop, if_neg (not_or.mpr ⟨h0, hblank⟩), if_neg (not_or.mpr ⟨hslash, hback⟩),
        hrest]
      split
      · rfl
      · rfl

section Normal
variable {n : List UInt8} (hn : Name83 n)
include hn

/-- A name is its own normal form. -/
theorem normalize_name : normalize n = some n := by
  obtain ⟨hpos, hlen, hch⟩ := hn.chars
  cases n with
  | nil => exact absurd hpos (Nat.not_succ_le_zero 0)
  | cons c rest =>
    obtain ⟨h0, hblank, hslash, -⟩ := hch c List.mem_cons_self
    have hloop := normalizeLoop_self (Nat.le_trans hlen (by decide : 12 ≤ fsMaxName)) hch
    simp [normalize, CString.peek, h0, hblank, hslash, hloop]

/-- So is a name behind a slash: **the slash is dropped**. -/
theorem normalize_absolute : normalize (0x2F :: n) = some n := by
  obtain ⟨hpos, hlen, hch⟩ := hn.chars
  have hloop := normalizeLoop_self (Nat.le_trans hlen (by decide : 12 ≤ fsMaxName)) hch
  have hne : n ≠ [] := List.ne_nil_of_length_pos hpos
  simp [normalize, CString.peek, hloop, hne]

/-- `normalize_dir` keeps it, so `vfs_chdir("/n")` is `vfs_chdir("/")` and then `vfs_chdir("n")`. -/
theorem vfsChdir_absolute (s : Fs) : vfsChdir (0x2F :: n) s = vfsChdir n (vfsChdir [0x2F] s).2 := by
  obtain ⟨hpos, hlen, hch⟩ := hn.chars
  cases n with
  | nil => exact absurd hpos (Nat.not_succ_le_zero 0)
  | cons c rest =>
    obtain ⟨h0, hblank, hslash, -⟩ := hch c List.mem_cons_self
    have hcopy := CString.copyWhile_run (p := fun c => c ≠ 0 ∧ c ≠ 0x20) (s := [])
      (fun b hb => by simpa using ⟨(hch b hb).1, (hch b hb).2.1⟩)
      (Nat.le_trans hlen (by decide : 12 ≤ fsMaxName)) (by simp)
    rw [List.append_nil] at hcopy
    have hname : normalizeDir (c :: rest) = some (c :: rest) := by
      have hskip : (c :: rest).dropWhile (· == 0x20) = c :: rest := by simp [hblank]
      have hpeek : CString.peek (c :: rest) = c := rfl
      have hlen' : ¬ (c :: rest).length = 0 := Nat.succ_ne_zero _
      rw [normalizeDir]
      simp only [hskip, hpeek, h0, hslash, if_false, hcopy, if_neg hlen']
    have habs : normalizeDir (0x2F :: c :: rest) = some (0x2F :: c :: rest) := rfl
    have hroot : normalizeDir [0x2F] = some [0x2F] := rfl
    rw [vfsChdir, vfsChdir, vfsChdir, hname, habs, hroot]
    simp only [onName, fsChdir, List.headD_cons, List.tail_cons]
    by_cases hready : s.fsReady = false
    · simp [hready]
    · simp [hready, h0, hslash]

end Normal

/-! ## The eight calls -/

/-- The calls with one path, but for `vfs_chdir`. -/
inductive VfsOp where
  | readPtr
  | writeRaw (data : List UInt8)
  | append (text : List UInt8)
  | touch
  | remove
  | mkdir
  | rmdir
  | isDir

/-- The code a call returns, and the bytes its pointer leads to. -/
abbrev Answer := Int × Option (List UInt8)

def codeOnly (r : Int × Fs) : Answer × Fs := ((r.1, none), r.2)

def bytesOnly (r : Option Nat × Fs) : Answer × Fs := ((0, r.1.map r.2.readCache.toList), r.2)

/-- The call on a path. -/
def VfsOp.exec (path : List UInt8) : VfsOp → Fs → Answer × Fs
  | readPtr, s => bytesOnly (vfsReadPtr path s)
  | writeRaw data, s => codeOnly (vfsWriteRaw path data s)
  | append text, s => codeOnly (vfsAppend path text s)
  | touch, s => codeOnly (vfsTouch path s)
  | remove, s => codeOnly (vfsRemove path s)
  | mkdir, s => codeOnly (vfsMkdir path s)
  | rmdir, s => codeOnly (vfsRmdir path s)
  | isDir, s => codeOnly (vfsIsDir path s)

/-- `vfs_chdir("/")`, the call on `n`, and back to the directory the driver was in. -/
def VfsOp.inRoot (n : List UInt8) (op : VfsOp) (s : Fs) : Answer × Fs :=
  let r := op.exec n (vfsChdir [0x2F] s).2
  (r.1, { r.2 with currentDirCluster := s.currentDirCluster, currentPath := s.currentPath })

/-- `/n` means the root: every call on it answers as the call in the root does, and leaves the
same tree. -/
def Fs.RootMeant (s : Fs) (n : List UInt8) : Prop :=
  ∀ op : VfsOp, (op.exec (0x2F :: n) s).1 = (op.inRoot n s).1 ∧
    SameTree (op.exec (0x2F :: n) s).2.volume (op.inRoot n s).2.volume

/-- The routine of the driver behind a call. -/
def VfsOp.driver (name : List UInt8) : VfsOp → Fs → Answer × Fs
  | readPtr, s => bytesOnly (fsReadPtr name s)
  | writeRaw data, s => codeOnly (fsWriteRaw name data s)
  | append text, s => codeOnly (fsAppend name text s)
  | touch, s => codeOnly (fsTouch name s)
  | remove, s => codeOnly (fsRemove name s)
  | mkdir, s => codeOnly (fsMkdir name s)
  | rmdir, s => codeOnly (fsRmdir name s)
  | isDir, s => codeOnly (fsIsDir name s)

theorem exec_eq_driver {path name : List UInt8} (h : normalize path = some name) (op : VfsOp) :
    op.exec path = op.driver name := by
  funext s
  cases op with
  | readPtr => simp only [VfsOp.exec, VfsOp.driver, vfsReadPtr, h]
  | writeRaw data => simp only [VfsOp.exec, VfsOp.driver, vfsWriteRaw, onName, h]
  | append text => simp only [VfsOp.exec, VfsOp.driver, vfsAppend, onName, h]
  | touch => simp only [VfsOp.exec, VfsOp.driver, vfsTouch, onName, h]
  | remove => simp only [VfsOp.exec, VfsOp.driver, vfsRemove, onName, h]
  | mkdir => simp only [VfsOp.exec, VfsOp.driver, vfsMkdir, onName, h]
  | rmdir => simp only [VfsOp.exec, VfsOp.driver, vfsRmdir, onName, h]
  | isDir => simp only [VfsOp.exec, VfsOp.driver, vfsIsDir, h]

/-! ## Where the two agree -/

theorem SameTree.refl (v : Volume) : SameTree v v :=
  ⟨fun _ => Iff.rfl, fun _ _ _ _ _ => rfl, fun _ _ _ _ => rfl⟩

theorem SameTree.of_eq {v v' : Volume} (h : v' = v) : SameTree v v' := by
  rw [h]
  exact SameTree.refl v

theorem codeOnly_blind {r r' : Int × Fs} (h : PathBlind r r') :
    PathBlind (codeOnly r) (codeOnly r') := by
  refine ⟨?_, h.state⟩
  rw [codeOnly, codeOnly, h.answer]

theorem driver_blind {s s' : Fs} (h : SameButPath s s') (n : List UInt8) (op : VfsOp) :
    PathBlind (op.driver n s) (op.driver n s') := by
  cases op with
  | readPtr =>
    have hr := fsReadPtr_blind h n
    refine ⟨?_, hr.state⟩
    rw [VfsOp.driver, VfsOp.driver, bytesOnly, bytesOnly, hr.answer, hr.state.readCache]
  | writeRaw data => exact codeOnly_blind (fsWriteRaw_blind h n data)
  | append text => exact codeOnly_blind (fsAppend_blind h n text)
  | touch => exact codeOnly_blind (fsTouch_blind h n)
  | remove => exact codeOnly_blind (fsRemove_blind h n)
  | mkdir => exact codeOnly_blind (fsMkdir_blind h n)
  | rmdir => exact codeOnly_blind (fsRmdir_blind h n)
  | isDir => exact codeOnly_blind (fsIsDir_blind h n)

/-- What a call answers when neither the name nor a vacant slot is there. -/
def VfsOp.refusal : VfsOp → Answer
  | readPtr => (0, none)
  | writeRaw data => (if data.length > fsMaxFileSize then -1 else -2, none)
  | append text => (if (cstr text).length > fsMaxFileSize then -1 else -2, none)
  | touch => (-2, none)
  | remove => (-1, none)
  | mkdir => (-2, none)
  | rmdir => (-1, none)
  | isDir => (0, none)

section Refusal
variable {s : Fs} {name : List UInt8} (hs : s.AtDir) (hg : s.dev.Good) (hready : s.fsReady = true)
  (hvalid : validName name = true) (hsk : s.seek name = ⟨none, none⟩)
include hs hg hready hvalid hsk

theorem fsWriteRaw_refusal (data : List UInt8) :
    (fsWriteRaw name data s).1 = (if data.length > fsMaxFileSize then -1 else -2) ∧
      Quiet s (fsWriteRaw name data s).2 := by
  obtain ⟨-, hq, ⟨-, -, hf, he, -⟩ | ⟨hno, -⟩⟩ := open_cases hs name
  · rw [fsWriteRaw]
    simp only [hready, hvalid, Bool.true_eq_false, false_or]
    split
    · exact ⟨rfl, Quiet.refl s⟩
    · rw [hf, hsk, he]
      exact ⟨rfl, hq⟩
  · exact absurd ⟨hvalid, hg.runs _⟩ hno

theorem fsReadPtr_refusal : (fsReadPtr name s).1 = none := by
  obtain ⟨-, -, ⟨-, -, hf, -, -⟩ | ⟨hno, -⟩⟩ := open_cases hs name
  · rw [fsReadPtr]
    simp only [hready, Bool.true_eq_false, if_false, hf, hsk]
  · exact absurd ⟨hvalid, hg.runs _⟩ hno

/-- **A call that finds no place is refused**, wherever it was made. -/
theorem driver_refusal (op : VfsOp) :
    (op.driver name s).1 = op.refusal ∧ Quiet s (op.driver name s).2 := by
  have hopen := open_cases hs name
  obtain ⟨hq, hq', ⟨-, -, hf, -, -⟩ | ⟨hno, -⟩⟩ := hopen
  · have hgo : ¬ (s.fsReady = false ∨ validName name = false) := by simp [hready, hvalid]
    have hup : ¬ s.fsReady = false := by simp [hready]
    cases op with
    | readPtr =>
      refine ⟨?_, fsReadPtr_quiet hs name⟩
      rw [VfsOp.driver, bytesOnly, fsReadPtr_refusal hs hg hready hvalid hsk]
      rfl
    | writeRaw data =>
      obtain ⟨hcode, hquiet⟩ := fsWriteRaw_refusal hs hg hready hvalid hsk data
      refine ⟨?_, hquiet⟩
      rw [VfsOp.driver, codeOnly, hcode]
      rfl
    | append text =>
      -- nothing was read, so the data is the text
      have hdata : s.appended name text = cstr text := by
        rw [Fs.appended, fsReadPtr_refusal hs hg hready hvalid hsk]
        rfl
      have hstate := appendState_quiet hs name text
      obtain ⟨hcode, hquiet⟩ := fsWriteRaw_refusal (hstate.atDir hs) (hstate.good hg)
        (hstate.fsReady.trans hready) hvalid ((hstate.seek name).trans hsk) (cstr text)
      rw [VfsOp.driver, codeOnly, fsAppend_eq, if_neg hup, hdata]
      by_cases hbig : (cstr text).length > fsMaxFileSize
      · rw [if_pos hbig, VfsOp.refusal, if_pos hbig]
        exact ⟨rfl, fsReadPtr_quiet hs name⟩
      · rw [if_neg hbig] at hcode ⊢
        rw [hcode, VfsOp.refusal, if_neg hbig]
        exact ⟨rfl, hstate.trans hquiet⟩
    | touch =>
      rw [VfsOp.driver, codeOnly, fsTouch, if_neg hgo]
      simp only [hf, hsk]
      exact ⟨rfl, hq⟩
    | remove =>
      rw [VfsOp.driver, codeOnly, fsRemove, if_neg hup]
      simp only [hf, hsk]
      exact ⟨rfl, hq⟩
    | mkdir =>
      rw [VfsOp.driver, codeOnly, fsMkdir, if_neg hgo]
      simp only [hf, hsk]
      exact ⟨rfl, hq⟩
    | rmdir =>
      rw [VfsOp.driver, codeOnly, fsRmdir, if_neg hup]
      simp only [hf, hsk]
      exact ⟨rfl, hq⟩
    | isDir =>
      rw [VfsOp.driver, codeOnly, fsIsDir, if_neg hup]
      simp only [hf, hsk]
      exact ⟨rfl, hq⟩
  · exact absurd ⟨hvalid, hg.runs _⟩ hno

end Refusal

/-- A driver that is not mounted refuses, and does nothing. -/
theorem driver_not_ready {s s' : Fs} (h : s.fsReady = false) (h' : s'.fsReady = false)
    (name : List UInt8) (op : VfsOp) : (op.driver name s').1 = (op.driver name s).1 ∧
      (op.driver name s).2 = s := by
  cases op with
  | readPtr => simp [VfsOp.driver, bytesOnly, fsReadPtr, h, h']
  | writeRaw data => simp [VfsOp.driver, codeOnly, fsWriteRaw, h, h']
  | append text => simp [VfsOp.driver, codeOnly, fsAppend, h, h']
  | touch => simp [VfsOp.driver, codeOnly, fsTouch, h, h']
  | remove => simp [VfsOp.driver, codeOnly, fsRemove, h, h']
  | mkdir => simp [VfsOp.driver, codeOnly, fsMkdir, h, h']
  | rmdir => simp [VfsOp.driver, codeOnly, fsRmdir, h, h']
  | isDir => simp [VfsOp.driver, codeOnly, fsIsDir, h, h']

/-! ## The rule

A call on an absolute path is made in the current directory, without its slash. The two
agree in the root, of course, and besides only where every call is refused in both: a
call that is not refused tells the two directories apart, by what it finds there or by
what it leaves. -/

section Rule
variable {s : Fs} {n : List UInt8}

theorem vfsChdir_root_not_ready (h : s.fsReady = false) : (vfsChdir [0x2F] s).2 = s := by
  have hroot : normalizeDir [0x2F] = some [0x2F] := rfl
  rw [vfsChdir, hroot, onName, fsChdir, if_pos h]

theorem vfsChdir_root (h : s.fsReady = true) : (vfsChdir [0x2F] s).2 = s.atRoot := by
  have hroot : normalizeDir [0x2F] = some [0x2F] := rfl
  rw [vfsChdir, hroot, onName]
  rcases fsChdir_cases h [0x2F] with ⟨-, -, he⟩ | ⟨-, hend, -⟩ | ⟨habs, -⟩
  · rw [he]
  · exact absurd rfl hend
  · exact absurd rfl habs

/-- The call in the root, in the words of the driver. -/
theorem inRoot_eq (hn : Name83 n) (hready : s.fsReady = true) (op : VfsOp) :
    (op.inRoot n s).1 = (op.driver n s.atRoot).1 ∧
      (op.inRoot n s).2.volume = (op.driver n s.atRoot).2.volume := by
  rw [VfsOp.inRoot, vfsChdir_root hready, exec_eq_driver (normalize_name hn)]
  exact ⟨rfl, rfl⟩

theorem rootMeant_of_not_ready (hn : Name83 n) (h : s.fsReady = false) : s.RootMeant n := by
  intro op
  obtain ⟨hcode, hstate⟩ := driver_not_ready h h n op
  rw [VfsOp.inRoot, vfsChdir_root_not_ready h, exec_eq_driver (normalize_name hn),
    exec_eq_driver (normalize_absolute hn)]
  exact ⟨rfl, SameTree.refl _⟩

theorem rootMeant_of_root (hn : Name83 n) (hready : s.fsReady = true)
    (h0 : s.currentDirCluster = 0) : s.RootMeant n := by
  intro op
  have hsame : SameButPath s s.atRoot := by
    refine ⟨rootPath s.currentPath, ?_⟩
    rw [Fs.atRoot, h0]
  have hop := driver_blind hsame n op
  obtain ⟨hcode, hvol⟩ := inRoot_eq hn hready op
  rw [exec_eq_driver (normalize_absolute hn), hcode, hop.answer]
  refine ⟨rfl, SameTree.of_eq ?_⟩
  rw [hvol, hop.state.volume]

theorem validName_name83 (hn : Name83 n) : validName n = true := by
  have hstr : cstr n = n := List.takeWhile_eq_self_iff.mpr fun c hc =>
    decide_eq_true (hn.chars.2.2 c hc).1
  rw [validName, isSome_fatNameFromInput_iff, hstr]
  exact hn

theorem rootMeant_of_no_place (hn : Name83 n) (hs : s.AtDir) (hg : s.dev.Good)
    (hready : s.fsReady = true) (hd : s.seek n = ⟨none, none⟩)
    (hr : s.atRoot.seek n = ⟨none, none⟩) : s.RootMeant n := by
  intro op
  have hvalid := validName_name83 hn
  obtain ⟨hcode, hq⟩ := driver_refusal hs hg hready hvalid hd op
  obtain ⟨hcode', hq'⟩ := driver_refusal (s := s.atRoot) s.atRoot_atDir hg hready hvalid hr op
  obtain ⟨hin, hvol⟩ := inRoot_eq hn hready op
  rw [exec_eq_driver (normalize_absolute hn), hcode, hin, hcode']
  refine ⟨rfl, SameTree.of_eq ?_⟩
  rw [hvol, hq'.volume, hq.volume]
  rfl

/-- An edit of another directory, on no clusters, leaves the slots of this one. -/
theorem Done.slot_away {s s' : Fs} {p : Prop} {i first d j : Nat} {e : FatDirEntry}
    (h : Done s s' p i e first [] []) (hd : DirNo d) (hj : j < maxEntries d)
    (hne : d ≠ s.currentDirCluster) : s'.volume.slot d j = s.volume.slot d j :=
  h.slot_kept d j hd List.not_mem_nil hj fun hij => hne hij.1

/-- A place for `n` in the root: `fs_write_raw` with no bytes is done there. -/
theorem fsWriteRaw_empty {s : Fs} (hs : s.AtDir) (hg : s.dev.Good) (hready : s.fsReady = true)
    {n : List UInt8} (hplace : s.seek n ≠ ⟨none, none⟩) :
    (fsWriteRaw n [] s).1 = 0 ∧ ∃ i e, Stored s (fsWriteRaw n [] s).2 n [] i e [] := by
  obtain ⟨i, e, hslot⟩ : ∃ i e, s.writeSlot n = some (i, e) := by
    rcases hsk : s.seek n with ⟨_ | i, _ | k⟩
    · exact absurd hsk hplace
    all_goals exact ⟨_, _, by rw [Fs.writeSlot, hsk]⟩
  have hw : Writes s n [] i e := ⟨hready, Nat.zero_le _, hslot, hg.runs _⟩
  have h0 := fsWriteRaw_fits hs hg hw (Nat.zero_le _)
  obtain ⟨j, e', l, hst⟩ := fsWriteRaw_stored hs hg h0
  obtain rfl : l = [] := List.length_eq_zero_iff.mp hst.length
  exact ⟨h0, j, e', hst⟩

section Counter
variable (hg : s.dev.Good) (hready : s.fsReady = true) (hdir : IsDir s.volume s.currentDirCluster)
  (hC : ChainsOk s.volume) (hn : Name83 n) (h0 : s.currentDirCluster ≠ 0) (h : s.RootMeant n)
include hg hready hdir hC hn h0 h

/-- The name is not in the current directory: `vfs_remove` would delete it there, and in the root
it would leave it. -/
theorem not_found_of_rootMeant : (s.seek n).idx = none := by
  cases hi : (s.seek n).idx with
  | none => rfl
  | some i =>
    obtain ⟨hcode, htree⟩ := h .remove
    obtain ⟨hin, hvol⟩ := inRoot_eq hn hready .remove
    rw [exec_eq_driver (normalize_absolute hn)] at hcode htree
    rw [hin] at hcode
    rw [hvol] at htree
    obtain ⟨hdone0, hd⟩ := fsRemove_done hdir.atDir hg hready hi
    have hroot0 : (fsRemove n s.atRoot).1 = 0 := by
      rw [← hdone0]
      exact (congrArg Prod.fst hcode).symm
    rcases fsRemove_spec s.atRoot_atDir n with ⟨hr, -⟩ | ⟨j, -, hm, -⟩
    · exact absurd hroot0 hr.code
    · have hd' := (fsRemove_done s.atRoot_atDir hg hready hm.found).2
      have hfound := (seek_found hi).2
      have hok := hd.remove_ok (by simp [removedEntry]) hC.owned hdir hi (Or.inl trivial)
      have hkept := hd'.slot_away hdir.dirNo hfound.slot_lt h0
      have hlive : ((fsRemove n s.atRoot).2.volume.slot s.currentDirCluster i).Live := by
        rw [hkept]
        exact hfound.live
      have hsame := htree.entries s.currentDirCluster i (hok.isDir_self hC.owned) hfound.slot_lt
        (Or.inl hlive)
      have hgone : ((fsRemove n s).2.volume.slot s.currentDirCluster i).Vacant := by
        rw [hd.slot_new trivial]
        exact Or.inr (by simp [removedEntry])
      exact absurd (hsame ▸ hgone) hlive.1

/-- Nor is there a vacant slot: `vfs_write_raw` would take it, and in the root it would not. -/
theorem no_place_of_rootMeant : s.seek n = ⟨none, none⟩ := by
  have hno := not_found_of_rootMeant hg hready hdir hC hn h0 h
  by_contra hplace
  obtain ⟨hcode, htree⟩ := h (.writeRaw [])
  obtain ⟨hin, hvol⟩ := inRoot_eq hn hready (.writeRaw [])
  rw [exec_eq_driver (normalize_absolute hn)] at hcode htree
  rw [hin] at hcode
  rw [hvol] at htree
  obtain ⟨hdone0, i, e, hst⟩ := fsWriteRaw_empty hdir.atDir hg hready hplace
  have hroot0 : (fsWriteRaw n [] s.atRoot).1 = 0 := by
    rw [← hdone0]
    exact (congrArg Prod.fst hcode).symm
  obtain ⟨j, e', l, hst'⟩ := fsWriteRaw_stored s.atRoot_atDir hg hroot0
  obtain rfl : l = [] := List.length_eq_zero_iff.mp hst'.length
  have hfile : s.FileOrAbsent n := by
    intro k hk
    rw [hno] at hk
    exact nomatch hk
  obtain ⟨hf, ⟨hi, -⟩ | ⟨-, hoff, -⟩⟩ := writeSlot_cases hst.slot
  · rw [hno] at hi
    exact nomatch hi
  · have hlive := (hst.written_live hfile).1
    have hok := hst.editOk hC.owned hdir hfile
    have hkept := hst'.done.slot_away hdir.dirNo hoff.slot_lt h0
    have hsame := htree.entries s.currentDirCluster i (hok.isDir_self hC.owned) hoff.slot_lt
      (Or.inr hlive)
    exact hlive.1 (hsame ▸ hkept ▸ hoff.vacant)

/-- And the root has no place either: `vfs_write_raw` would succeed there. -/
theorem no_root_place_of_rootMeant : s.atRoot.seek n = ⟨none, none⟩ := by
  have hd := no_place_of_rootMeant hg hready hdir hC hn h0 h
  by_contra hplace
  obtain ⟨hcode, -⟩ := h (.writeRaw [])
  obtain ⟨hin, -⟩ := inRoot_eq hn hready (.writeRaw [])
  obtain ⟨hroot0, -⟩ := fsWriteRaw_empty s.atRoot_atDir hg hready hplace
  have hrefused := (driver_refusal hdir.atDir hg hready (validName_name83 hn) hd (.writeRaw [])).1
  rw [exec_eq_driver (normalize_absolute hn), hin, hrefused, VfsOp.driver, codeOnly,
    hroot0] at hcode
  exact absurd (congrArg Prod.fst hcode) (show ¬ (-2 : Int) = 0 by decide)

end Counter

/-- **Where an absolute path means the root**: for a driver that is in the root, and
where every call is refused, in the current directory as in the root. A driver that is
not mounted refuses everything. -/
theorem absolute_iff (hg : s.dev.Good) (hdir : IsDir s.volume s.currentDirCluster)
    (hC : ChainsOk s.volume) (hn : Name83 n) :
    s.RootMeant n ↔ s.fsReady = false ∨ s.currentDirCluster = 0 ∨
      (s.seek n = ⟨none, none⟩ ∧ s.atRoot.seek n = ⟨none, none⟩) := by
  constructor
  · intro h
    by_cases hup : s.fsReady = false
    · exact Or.inl hup
    · have hready : s.fsReady = true := by simpa using hup
      by_cases h0 : s.currentDirCluster = 0
      · exact Or.inr (Or.inl h0)
      · exact Or.inr (Or.inr ⟨no_place_of_rootMeant hg hready hdir hC hn h0 h,
          no_root_place_of_rootMeant hg hready hdir hC hn h0 h⟩)
  · intro hcases
    by_cases hup : s.fsReady = false
    · exact rootMeant_of_not_ready hn hup
    · have hready : s.fsReady = true := by simpa using hup
      rcases hcases with hdown | h0 | ⟨hd, hr⟩
      · exact absurd hdown hup
      · exact rootMeant_of_root hn hready h0
      · exact rootMeant_of_no_place hn hdir.atDir hg hready hd hr

end Rule

/-- A file in the root, and the driver in the directory `/D`. -/
def besideFs : Fs := (fsChdir [0x44] (fsMkdir [0x44] (fsWriteRaw [0x46] [1] freshFs).2).2).2

/-- `/F` from `/D`: `vfs_read_ptr` finds nothing, and the root holds the file. -/
theorem absolute_misses :
    besideFs.fsReady = true ∧ besideFs.currentDirCluster = 3 ∧
    (VfsOp.readPtr.exec [0x2F, 0x46] besideFs).1 = (0, none) ∧
    (VfsOp.readPtr.inRoot [0x46] besideFs).1 = (0, some [1]) ∧ ¬ besideFs.RootMeant [0x46] := by
  have hexec : (VfsOp.readPtr.exec [0x2F, 0x46] besideFs).1 = (0, none) := by decide +kernel
  have hroot : (VfsOp.readPtr.inRoot [0x46] besideFs).1 = (0, some [1]) := by decide +kernel
  refine ⟨by decide +kernel, by decide +kernel, hexec, hroot, ?_⟩
  intro h
  obtain ⟨hcode, -⟩ := h .readPtr
  rw [hexec, hroot] at hcode
  exact absurd (congrArg Prod.snd hcode) (by decide)

/-- The tree behind `besideFs` is sound, and the device answers. -/
theorem besideFs_wf : besideFs.dev.Good ∧ IsDir besideFs.volume besideFs.currentDirCluster ∧
    ChainsOk besideFs.volume := by
  have h₀ : TreeOk freshFs := freshFs_empty.treeOk freshFs_cluster
  have hsafe : (FsOp.writeRaw [0x46] [1]).Safe freshFs := by
    intro _ _ i hi
    obtain ⟨hf, hfound⟩ := seek_found hi
    exact absurd (hfound.owner hf h₀.dir) freshFs_empty.not_owner
  have h₁ := h₀.step hsafe
  have hC₁ := h₀.chainsOk_step freshFs_empty.chainsOk hsafe
  have hok₁ := h₀.step_ok hsafe
  have hmkdir : (FsOp.mkdir [0x44]).Safe ((FsOp.writeRaw [0x46] [1]).step freshFs) := trivial
  have h₂ := h₁.step hmkdir
  have hC₂ := h₁.chainsOk_step hC₁ hmkdir
  have hok₂ := h₁.step_ok hmkdir
  have hchdir : (FsOp.chdir [0x44]).Safe
    ((FsOp.mkdir [0x44]).step ((FsOp.writeRaw [0x46] [1]).step freshFs)) := trivial
  refine ⟨fun n => ?_, (h₂.step hchdir).dir, h₂.chainsOk_step hC₂ hchdir⟩
  have hok := (h₂.step_ok hchdir).trans (hok₂.trans hok₁)
  exact (congrFun hok n).trans (freshFs_good n)

/-- In the root the two agree; in `/D`, where `F` would have a place of its own, they do not. -/
theorem absolute_iff_beside : freshFs.RootMeant [0x46] ∧ ¬ besideFs.RootMeant [0x46] := by
  have hn : Name83 [0x46] :=
    ⟨[0x46], [], by decide, by decide, by decide, CString.forall_mem_of_all (by decide),
      CString.forall_mem_of_all (by decide), Or.inl ⟨rfl, rfl⟩⟩
  refine ⟨(absolute_iff freshFs_good freshFs_isDir freshFs_empty.chainsOk hn).mpr
    (Or.inr (Or.inl freshFs_cluster)), fun h => ?_⟩
  obtain ⟨hg, hdir, hC⟩ := besideFs_wf
  have hup : besideFs.fsReady = true := by decide +kernel
  have hsub : besideFs.currentDirCluster = 3 := by decide +kernel
  have hplace : (besideFs.seek [0x46]).freeIdx = some 2 := by decide +kernel
  rcases (absolute_iff hg hdir hC hn).mp h with hdown | h0 | ⟨hnone, -⟩
  · exact absurd (hup.symm.trans hdown) (by decide)
  · exact absurd (hsub.symm.trans h0) (by decide)
  · rw [hnone] at hplace
    exact absurd hplace (by decide)

end OsU
