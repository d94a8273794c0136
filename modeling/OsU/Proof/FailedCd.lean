import OsU.Proof.Read
import OsU.Proof.Format

/-!
# A directory that is not entered

`fs_chdir` on a relative path assigns only behind its checks, so a failure changes
nothing. On an absolute path it goes to the root first, and looks up the rest of the
path from there: when that fails, the driver is in the root.

So the condition is that an absolute path leads somewhere, or that the driver is in the
root already, with the path string of the root. It does not mention the device: in the
root nothing is read, and a relative path that cannot be read is a failure like any
other.
-/

set_option autoImplicit false

namespace OsU

/-- The driver in the root, the path with it. -/
def Fs.atRoot (s : Fs) : Fs :=
  { s with currentDirCluster := 0, currentPath := rootPath s.currentPath }

/-- In the root a relative path leads somewhere when it is `..` or a directory's name: nothing is
read on the way. -/
theorem chdirRelative_root {s : Fs} (h0 : s.currentDirCluster = 0) (path : List UInt8) :
    (chdirRelative path s).1 = 0 ↔ cstr path = [0x2E, 0x2E] ∨
      ∃ i, (s.seek path).idx = some i ∧ (s.volume.slot 0 i).isDir = true := by
  have hs : s.AtDir := ⟨Or.inl h0, by rw [h0]; decide⟩
  constructor
  · intro hcode
    rcases chdirRelative_cases hs path with hr | ⟨-, ⟨hup, -⟩ | ⟨hup, -⟩ | ⟨i, hi, hdir, -⟩⟩
    · exact absurd hcode hr.code
    · exact Or.inl hup
    · exact Or.inl hup
    · rw [h0] at hdir
      exact Or.inr ⟨i, hi, hdir⟩
  · rintro (hup | ⟨i, hi, hdir⟩)
    · rw [chdirRelative, if_pos hup, if_pos h0]
    · rw [chdirRelative]
      split
      · rfl
      · have hf := seek_found hi
        have hvalid : validName path = true := valid_of_found hi
        have hreads : dirReads s.currentDirCluster = 0 := if_pos h0
        have hruns : s.dev.Runs (2 * dirReads s.currentDirCluster) := by
          rw [hreads]
          exact fun k hk => absurd hk (Nat.not_lt_zero k)
        obtain ⟨-, -, ⟨-, -, he, hload, hl⟩ | ⟨hno, -⟩⟩ := open_cases hs path
        · have hent := hl.ent i hf.2.slot_lt
          rw [h0] at hent
          simp only [he, hi, hload, hent, hdir, Bool.true_eq_false, if_false]
        · exact absurd ⟨hvalid, hruns⟩ hno

/-- An absolute path that leads nowhere, given to a driver that is not in the root with
the path of the root. Before the first `fs_getcwd` the string is empty, and a failed
`cd` sets it. -/
def Fs.CdStrays (s : Fs) (path : List UInt8) : Prop :=
  s.fsReady = true ∧ path.headD 0 = 0x2F ∧ path.tail.headD 0 ≠ 0 ∧ cstr path.tail ≠ [0x2E, 0x2E] ∧
    (∀ i, (s.atRoot.seek path.tail).idx = some i → (s.volume.slot 0 i).isDir = false) ∧
    ¬ (s.currentDirCluster = 0 ∧ rootPath s.currentPath = s.currentPath)

/-- The three ways through `fs_chdir`. -/
theorem fsChdir_cases {s : Fs} (hready : s.fsReady = true) (path : List UInt8) :
    (path.headD 0 = 0x2F ∧ path.tail.headD 0 = 0 ∧ fsChdir path s = (0, s.atRoot)) ∨
    (path.headD 0 = 0x2F ∧ path.tail.headD 0 ≠ 0 ∧
      fsChdir path s = chdirRelative path.tail s.atRoot) ∨
    (path.headD 0 ≠ 0x2F ∧ fsChdir path s = chdirRelative path s) := by
  have hgo : ¬ s.fsReady = false := by simp [hready]
  rw [fsChdir, if_neg hgo]
  by_cases habs : path.headD 0 = 0x2F
  · rw [if_pos habs]
    by_cases hend : path.tail.headD 0 = 0
    · exact Or.inl ⟨habs, hend, if_pos hend⟩
    · exact Or.inr (Or.inl ⟨habs, hend, if_neg hend⟩)
  · rw [if_neg habs]
    exact Or.inr (Or.inr ⟨habs, rfl⟩)

/-- A relative path that leads nowhere leaves the driver where it was. -/
theorem chdirRelative_failed {s : Fs} (hs : s.AtDir) {path : List UInt8}
    (hcode : (chdirRelative path s).1 ≠ 0) :
    (chdirRelative path s).2.currentDirCluster = s.currentDirCluster ∧
      (chdirRelative path s).2.currentPath = s.currentPath := by
  rcases chdirRelative_cases hs path with hr | ⟨h0, -⟩
  · exact ⟨hr.quiet.currentDirCluster, hr.quiet.currentPath⟩
  · exact absurd h0 hcode

theorem Fs.atRoot_atDir (s : Fs) : s.atRoot.AtDir := ⟨Or.inl rfl, Nat.zero_lt_succ _⟩

/-- What the failure of the second half means. -/
theorem chdirRelative_atRoot_failed (s : Fs) (path : List UInt8) :
    (chdirRelative path s.atRoot).1 ≠ 0 ↔ cstr path ≠ [0x2E, 0x2E] ∧
      ∀ i, (s.atRoot.seek path).idx = some i → (s.volume.slot 0 i).isDir = false := by
  rw [ne_eq, chdirRelative_root rfl, not_or, not_exists]
  simp only [not_and, Bool.not_eq_true]
  exact Iff.rfl

/-- A call that strays fails, and the driver is in the root. -/
theorem Fs.CdStrays.moved {s : Fs} {path : List UInt8} (h : s.CdStrays path) :
    (fsChdir path s).1 ≠ 0 ∧ (fsChdir path s).2.currentDirCluster = 0 ∧
      (fsChdir path s).2.currentPath = rootPath s.currentPath := by
  obtain ⟨hready, habs, hmore, hup, hnone, -⟩ := h
  rcases fsChdir_cases hready path with ⟨-, hend, -⟩ | ⟨-, -, he⟩ | ⟨hrel, -⟩
  · exact absurd hend hmore
  · have hcode := (chdirRelative_atRoot_failed s path.tail).mpr ⟨hup, hnone⟩
    rw [he]
    exact ⟨hcode, chdirRelative_failed s.atRoot_atDir hcode⟩
  · exact absurd habs hrel

/-- **A failed `cd` changes nothing exactly when it does not stray.** Both the directory
and its path string are meant, and the condition is on the path and the state before the
call. -/
theorem failed_cd_iff {s : Fs} (hs : s.AtDir) (path : List UInt8) :
    ((fsChdir path s).1 ≠ 0 → (fsChdir path s).2.currentDirCluster = s.currentDirCluster ∧
      (fsChdir path s).2.currentPath = s.currentPath) ↔ ¬ s.CdStrays path := by
  constructor
  · intro h hstray
    obtain ⟨hcode, hd, hp⟩ := hstray.moved
    rw [hd, hp] at h
    obtain ⟨h0, hpath⟩ := h hcode
    exact hstray.2.2.2.2.2 ⟨h0.symm, hpath⟩
  · intro hno hcode
    cases hready : s.fsReady with
    | false =>
      rw [fsChdir, if_pos hready]
      exact ⟨rfl, rfl⟩
    | true =>
      rcases fsChdir_cases hready path with ⟨-, -, he⟩ | ⟨habs, hmore, he⟩ | ⟨-, he⟩
      · rw [he] at hcode
        exact absurd rfl hcode
      · -- the second half failed, so the driver was there before
        rw [he] at hcode ⊢
        obtain ⟨hd, hp⟩ := chdirRelative_failed s.atRoot_atDir hcode
        obtain ⟨hup, hnone⟩ := (chdirRelative_atRoot_failed s path.tail).mp hcode
        have hhome : s.currentDirCluster = 0 ∧ rootPath s.currentPath = s.currentPath := by
          by_contra hnot
          exact hno ⟨hready, habs, hmore, hup, hnone, hnot⟩
        rw [hd, hp]
        exact ⟨hhome.1.symm, hhome.2⟩
      · rw [he] at hcode ⊢
        exact chdirRelative_failed hs hcode

/-! ## Two failures -/

/-- The driver in `/D`, the only entry of the volume. -/
def nestedFs : Fs := (fsChdir [0x44] (fsMkdir [0x44] (fsGetcwd freshFs).2).2).2

/-- `cd /X` from `/D`: there is no such name, and the driver is in the root. -/
theorem cd_strays :
    nestedFs.fsReady = true ∧ nestedFs.currentDirCluster = 2 ∧
    cstr nestedFs.currentPath = [0x2F, 0x44] ∧ (fsChdir [0x2F, 0x58] nestedFs).1 = -3 ∧
    (fsChdir [0x2F, 0x58] nestedFs).2.currentDirCluster = 0 ∧
    cstr (fsChdir [0x2F, 0x58] nestedFs).2.currentPath = [0x2F] ∧
    ¬ ((fsChdir [0x2F, 0x58] nestedFs).1 ≠ 0 →
      (fsChdir [0x2F, 0x58] nestedFs).2.currentDirCluster = nestedFs.currentDirCluster ∧
        (fsChdir [0x2F, 0x58] nestedFs).2.currentPath = nestedFs.currentPath) := by
  decide +kernel

/-- `cd X` from there fails as well, and the driver stays. -/
theorem failed_cd_iff_relative :
    (fsChdir [0x58] nestedFs).1 = -3 ∧
    (fsChdir [0x58] nestedFs).2.currentDirCluster = nestedFs.currentDirCluster ∧
    (fsChdir [0x58] nestedFs).2.currentPath = nestedFs.currentPath := by
  have hcode : (fsChdir [0x58] nestedFs).1 = -3 := by decide +kernel
  have h2 : nestedFs.currentDirCluster = 2 := by decide +kernel
  have hs : nestedFs.AtDir := ⟨Or.inr (by rw [h2]), by rw [h2]; decide⟩
  refine ⟨hcode, (failed_cd_iff hs [0x58]).mpr ?_ (by rw [hcode]; decide)⟩
  rintro ⟨-, habs, -⟩
  exact absurd habs (by decide)

end OsU
