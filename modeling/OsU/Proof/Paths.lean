import OsU.Lib.PathName
import OsU.Proof.Directories
import Mathlib.Data.List.TakeWhile

/-!
# The path of the working directory

`fs_chdir` keeps the working directory twice: as a cluster, and as a string in a buffer
of 128 bytes. The two agree (`AtPath`) as long as the string fits: a name that does not
fit is left out, but the cluster has moved on.

The string is a list of names with slashes before them (`PathName.rooted`), and it leads
where it should when the names are those of the directories on the way (`Walk`).

Going down appends a name and going up cuts at the last slash, so the proof keeps the
list of names beside the buffer, and the string is computed from the list. What is
appended is not what was typed but the name in the entry, as `fat_name_to_printable`
spells it. A call goes one level: what is left of the argument behind a leading slash is
looked up as one name. So the condition `Fits` is about one name, the one that is found,
and the slash before it.

That the condition is needed is shown with ten directories of twelve characters, one
inside the other: the tenth name does not fit.
-/

set_option autoImplicit false

namespace OsU

open PathName Runs

/-! ## The buffer

`current_path` is 128 bytes that are edited in place. A component is added behind the
NUL and taken off at the last slash; both are first shown for the bytes, then for the
names they spell. -/

/-- The string for these names, from the root down. -/
def pathOf (names : List (List UInt8)) : List UInt8 := if names = [] then [0x2F] else rooted 0x2F names

/-- The buffer holds the string: 128 bytes, the string, a zero behind it, and no zero in
it. -/
structure Holds (buf str : List UInt8) : Prop where
  length : buf.length = fsMaxPath
  ends : ∃ rest, buf = str ++ 0 :: rest
  clean : (0 : UInt8) ∉ str

theorem cstr_append {str : List UInt8} (h : (0 : UInt8) ∉ str) (rest : List UInt8) :
    cstr (str ++ 0 :: rest) = str := by
  rw [cstr, List.takeWhile_append_of_pos]
  · simp
  · intro x hx
    have hne : x ≠ 0 := fun h0 => h (h0 ▸ hx)
    simpa using hne

theorem cstr_self {str : List UInt8} (h : (0 : UInt8) ∉ str) : cstr str = str := by
  rw [cstr, List.takeWhile_eq_self_iff]
  intro x hx
  have hne : x ≠ 0 := fun h0 => h (h0 ▸ hx)
  simpa using hne

theorem Holds.cstr_eq {buf str : List UInt8} (h : Holds buf str) : cstr buf = str := by
  obtain ⟨-, ⟨rest, rfl⟩, hc⟩ := h
  exact cstr_append hc rest

/-- There is a slash at the start, so `fs_getcwd` leaves the buffer as it is. -/
theorem Holds.head_ne {buf : List UInt8} {names : List (List UInt8)} (h : Holds buf (pathOf names)) :
    ¬ buf.headD 0 = 0 := by
  obtain ⟨-, ⟨rest, rfl⟩, -⟩ := h
  cases names with
  | nil => simp [pathOf]
  | cons n names => simp [pathOf]

/-- A name of a directory, as it stands in the path. -/
structure IsComponent (n : List UInt8) : Prop extends IsName (0x2F : UInt8) n where
  zero_not_mem : (0 : UInt8) ∉ n

theorem holds_rootPath {buf : List UInt8} (h : buf.length = fsMaxPath) : Holds (rootPath buf) [0x2F] := by
  match buf, h with
  | x :: y :: rest, h => exact ⟨by simpa [rootPath] using h, ⟨rest, rfl⟩, by decide⟩

theorem rooted_zero_not_mem {names : List (List UInt8)} (h : ∀ n ∈ names, IsComponent n) :
    (0 : UInt8) ∉ rooted 0x2F names := by
  intro hm
  rcases mem_rooted hm with h0 | ⟨n, hn, hx⟩
  · exact absurd h0 (by decide)
  · exact (h n hn).zero_not_mem hx

/-- **A component is added**, when there is room for it. -/
theorem Holds.child {buf n : List UInt8} {names : List (List UInt8)} (h : Holds buf (pathOf names))
    (hnames : ∀ m ∈ names, IsComponent m) (hn : IsComponent n)
    (hfit : (pathOf names).length + (if 1 < (pathOf names).length then 1 else 0) + n.length <
      fsMaxPath) : Holds (childPath buf n) (pathOf (names ++ [n])) := by
  have hcstr := h.cstr_eq
  obtain ⟨hlen, ⟨rest, rfl⟩, hclean⟩ := h
  have hname : cstr n = n := cstr_self hn.zero_not_mem
  have hnew : ∀ m ∈ names ++ [n], IsComponent m := fun m hm => by
    rcases List.mem_append.mp hm with hm | hm
    · exact hnames m hm
    · rwa [List.mem_singleton.mp hm]
  have hgoal : pathOf (names ++ [n]) = rooted 0x2F names ++ 0x2F :: n := by
    rw [pathOf, if_neg (by simp), rooted_snoc]
  have hmax : fsMaxPath = 128 := rfl
  have hzero : (0 : UInt8) ∉ rooted 0x2F names ++ 0x2F :: n := by
    rw [← rooted_snoc]
    exact rooted_zero_not_mem hnew
  rw [hgoal]
  by_cases hroot : names = []
  · -- At the root there is no slash to add.
    subst hroot
    have hp : pathOf [] = [0x2F] := rfl
    rw [hp] at hcstr hlen hfit ⊢
    simp only [List.length_cons, List.length_nil, Nat.lt_irrefl, if_false] at hfit
    have hbuf : childPath ([0x2F] ++ 0 :: rest) n = [0x2F] ++ (n ++ [0]) ++ (0 :: rest).drop (n.length + 1) := by
      simp only [childPath, hcstr, hname, List.length_cons, List.length_nil, gt_iff_lt, Nat.zero_add,
        Nat.lt_irrefl, false_and, if_false, strcpyAt]
      rw [if_pos (by omega)]
      refine (overwrite_append [0x2F] (0 :: rest) (n ++ [0]) ?_).trans (by simp)
      simp only [List.length_append, List.length_cons, List.length_nil] at hlen ⊢
      omega
    rw [hbuf]
    refine ⟨?_, ⟨(0 :: rest).drop (n.length + 1), by simp⟩, hzero⟩
    simp only [List.length_append, List.length_cons, List.length_nil, List.length_drop] at hlen ⊢
    omega
  · have hp : pathOf names = rooted 0x2F names := if_neg hroot
    have hlong : 1 < (rooted (0x2F : UInt8) names).length := by
      cases names with
      | nil => exact absurd rfl hroot
      | cons m names =>
        have := List.length_pos_of_ne_nil (hnames m (by simp)).ne_nil
        simp only [rooted_cons, List.length_cons, List.length_append]
        omega
    rw [hp] at hcstr hlen hfit ⊢
    rw [if_pos hlong] at hfit
    have hset : (rooted 0x2F names ++ 0 :: rest).set (rooted (0x2F : UInt8) names).length 0x2F =
        (rooted 0x2F names ++ [0x2F]) ++ rest := by
      rw [List.set_append_right _ _ (Nat.le_refl _), Nat.sub_self]
      simp
    have hover := overwrite_append (rooted 0x2F names ++ [0x2F]) rest (n ++ [0]) (by
      simp only [List.length_append, List.length_cons, List.length_nil] at hlen ⊢
      omega)
    simp only [List.length_append, List.length_cons, List.length_nil, Nat.zero_add] at hover
    have hbuf : childPath (rooted 0x2F names ++ 0 :: rest) n =
        rooted 0x2F names ++ [0x2F] ++ (n ++ [0]) ++ rest.drop (n.length + 1) := by
      have hslash : (rooted (0x2F : UInt8) names).length > 1 ∧
          (rooted (0x2F : UInt8) names).length < fsMaxPath - 1 := ⟨hlong, by omega⟩
      simp only [childPath, hcstr, hname, strcpyAt, if_pos hslash]
      rw [if_pos (by omega), hset, hover]
    rw [hbuf]
    refine ⟨?_, ⟨rest.drop (n.length + 1), by simp⟩, hzero⟩
    simp only [List.length_append, List.length_cons, List.length_nil, List.length_drop] at hlen ⊢
    omega

theorem lastSlash_name {n : List UInt8} (hn : IsComponent n) (rest : List UInt8) (i last : Nat) :
    lastSlash (n ++ 0 :: rest) i last = last := by
  obtain ⟨⟨-, hs⟩, hz⟩ := hn
  induction n generalizing i with
  | nil => simp [lastSlash]
  | cons c n ih =>
    simp only [List.mem_cons, not_or] at hs hz
    rw [List.cons_append, lastSlash, if_neg (Ne.symm hz.1), if_neg (Ne.symm hs.1)]
    exact ih (i + 1) hz.2 hs.2

/-- The scan forgets the slashes before a slash. -/
theorem lastSlash_append {a : List UInt8} (ha : (0 : UInt8) ∉ a) (b : List UInt8) (i last : Nat) :
    lastSlash (a ++ 0x2F :: b) i last = lastSlash b (i + a.length + 1) (i + a.length) := by
  induction a generalizing i last with
  | nil => simp [lastSlash]
  | cons c a ih =>
    simp only [List.mem_cons, not_or] at ha
    rw [List.cons_append, lastSlash, if_neg (Ne.symm ha.1), ih ha.2, List.length_cons]
    congr 1 <;> omega

/-- **The last component is taken off.** -/
theorem Holds.parent {buf n : List UInt8} {names : List (List UInt8)}
    (h : Holds buf (pathOf (names ++ [n]))) (hnames : ∀ m ∈ names, IsComponent m) (hn : IsComponent n) :
    Holds (parentPath buf) (pathOf names) := by
  have hp : pathOf (names ++ [n]) = rooted 0x2F names ++ 0x2F :: n := by
    rw [pathOf, if_neg (by simp), rooted_snoc]
  rw [hp] at h
  obtain ⟨hlen, ⟨rest, hbuf⟩, -⟩ := h
  have hz := rooted_zero_not_mem hnames
  have hlast : lastSlash buf 0 0 = (rooted (0x2F : UInt8) names).length := by
    rw [hbuf, List.append_assoc, List.cons_append, lastSlash_append hz, lastSlash_name hn]
    omega
  rw [parentPath]
  simp only [hlast]
  by_cases hroot : names = []
  · subst hroot
    have hne := hn.ne_nil
    cases n with
    | nil => exact absurd rfl hne
    | cons c n =>
      subst hbuf
      exact ⟨by simpa using hlen, ⟨n ++ 0 :: rest, rfl⟩, by decide⟩
  · have hpos : (rooted (0x2F : UInt8) names).length ≠ 0 := fun h0 =>
      hroot (rooted_eq_nil.mp (List.length_eq_zero_iff.mp h0))
    rw [if_neg hpos, pathOf, if_neg hroot]
    refine ⟨by simpa using hlen, ⟨n ++ 0 :: rest, ?_⟩, hz⟩
    rw [hbuf, List.append_assoc, List.set_append_right _ _ (Nat.le_refl _), Nat.sub_self]
    rfl

/-! ## Where a path leads -/

/-- Following names from directory `d` down. A name that has no entry, and an entry that is no
directory, end it; a name is compared in its 8.3 form, as the driver does. -/
def resolve (v : Volume) : Nat → List (List UInt8) → Option Nat
  | d, [] => some d
  | d, name :: rest =>
    match fatNameFromInput name with
    | none => none
    | some f11 =>
      match (lookup v d f11).idx with
      | none => none
      | some i =>
        if (v.slot d i).isDir then resolve v (v.slot d i).fstClusLo rest else none

theorem resolve_append {v : Volume} {d : Nat} {names rest : List (List UInt8)} :
    resolve v d (names ++ rest) = (resolve v d names).bind fun d' => resolve v d' rest := by
  induction names generalizing d with
  | nil => rfl
  | cons name names ih =>
    simp only [List.cons_append, resolve]
    split
    · rfl
    · split
      · rfl
      · split
        · exact ih
        · rfl

/-- The names are those of the directories from the root down to `c`, as they print.
Each is found by a scan, so of two entries of one name it is the first. -/
inductive Walk (v : Volume) : List (List UInt8) → Nat → Prop
  | root : Walk v [] 0
  | down {names : List (List UInt8)} {inp f11 : List UInt8} {d i c : Nat} : Walk v names d →
      fatNameFromInput inp = some f11 → Found v d f11 i → SubDir v d i c →
      Walk v (names ++ [fatNameToPrintable f11]) c

theorem isComponent_printable {inp f11 : List UInt8} (h : fatNameFromInput inp = some f11) :
    IsComponent (fatNameToPrintable f11) := by
  obtain ⟨base, ext, hp, -, rfl⟩ := fatNameFromInput_eq_some.mp h
  rw [fatNameToPrintable_encode83 hp]
  -- The characters are valid ones, and the dot.
  have hchar : ∀ b ∈ spell base ext, b ≠ 0 ∧ b ≠ 0x2F := by
    intro b hb
    rcases mem_spell hp hb with hv | rfl
    · exact ⟨(valid_ne hv).1, (valid_ne hv).2.2.2.1⟩
    · exact ⟨by decide, by decide⟩
  refine ⟨⟨fun hn => hp.base_pos ?_, fun hm => (hchar _ hm).2 rfl⟩, fun hm => (hchar _ hm).1 rfl⟩
  exact (List.append_eq_nil_iff.mp hn).1

namespace Walk

variable {v : Volume} {names : List (List UInt8)} {c : Nat}

theorem isDir (h : Walk v names c) : IsDir v c := by
  induction h with
  | root => exact .root
  | down _ _ _ hs ih => exact .sub ih hs

theorem isComponent (h : Walk v names c) : ∀ n ∈ names, IsComponent n := by
  induction h with
  | root => exact fun _ hn => absurd hn (by simp)
  | down _ hf _ _ ih =>
    intro n hn
    rcases List.mem_append.mp hn with hn | hn
    · exact ih n hn
    · rw [List.mem_singleton.mp hn]
      exact isComponent_printable hf

theorem resolve (h : Walk v names c) : OsU.resolve v 0 names = some c := by
  induction h with
  | root => rfl
  | @down names inp f11 d i c _ hf hfound hs ih =>
    have hback := fatNameFromInput_printable hf
    have hidx := (lookup_idx (length_of_fatNameFromInput hf)).mpr hfound
    rw [resolve_append, ih, Option.bind_some]
    simp only [OsU.resolve, hback, hidx, hs.isDir, if_true, hs.clus]

/-- From a subdirectory, one up. -/
theorem up (h : Walk v names c) (h0 : c ≠ 0) : ∃ front n d i, names = front ++ [n] ∧ Walk v front d ∧
    IsComponent n ∧ SubDir v d i c := by
  cases h with
  | root => exact absurd rfl h0
  | down hw hf _ hs => exact ⟨_, _, _, _, rfl, hw, isComponent_printable hf, hs⟩

theorem kept (h : Walk v names c) {v' : Volume}
    (hkeep : ∀ d f11 j, IsDir v d → Found v d f11 j →
      Found v' d f11 j ∧ v'.slot d j = v.slot d j) : Walk v' names c := by
  induction h with
  | root => exact .root
  | @down names inp f11 d i c hw hf hfound hs ih =>
    obtain ⟨hfound', he⟩ := hkeep d f11 i hw.isDir hfound
    obtain ⟨h₁, h₂, h₃, h₄, h₅⟩ := hs
    rw [← he] at h₂ h₃ h₄
    exact .down ih hf hfound' ⟨h₁, h₂, h₃, h₄, h₅⟩

end Walk

/-! ## The invariant -/

/-- The path names the working directory. -/
structure AtPath (s : Fs) : Prop extends TreeOk s where
  path : ∃ names, Walk s.volume names s.currentDirCluster ∧ Holds s.currentPath (pathOf names)

theorem AtPath.of_quiet {s s' : Fs} (h : AtPath s) (hq : Quiet s s') : AtPath s' := by
  refine ⟨h.toTreeOk.of_quiet hq, ?_⟩
  rw [hq.volume, hq.currentDirCluster, hq.currentPath]
  exact h.path

/-- A new directory leaves the names that were there. -/
theorem fsMkdir_found {s : Fs} (hO : Owned s.volume) (hdir : IsDir s.volume s.currentDirCluster)
    (name : List UInt8) {d j : Nat} {f11 : List UInt8} (hd : IsDir s.volume d)
    (h : Found s.volume d f11 j) :
    Found (fsMkdir name s).2.volume d f11 j ∧
      (fsMkdir name s).2.volume.slot d j = s.volume.slot d j := by
  rcases fsMkdir_edit hO hdir name with hq | ⟨reached, i, x, hsk, hdone, hok⟩
  · rw [hq.volume]
    exact ⟨h, rfl⟩
  · obtain ⟨hf, hoff⟩ := seek_offered hsk
    have hne : ¬ (d = s.currentDirCluster ∧ j = i) := by
      rintro ⟨rfl, rfl⟩
      exact h.live.1 hoff.vacant
    refine ⟨h.kept (fun k hk hki => hok.slot_eq hO hd hk hki) (fun hdc hij => ?_) hne,
      hok.slot_eq hO hd h.slot_lt hne⟩
    subst hdc
    by_cases hr : reached
    · rw [hdone.slot_new hr]
      have hname := mkdirEntry_name11 hf x
      have howns := FatDirEntry.owns_of_name hf hname (by simp [mkdirEntry, newEntry]; decide)
      refine ⟨fun hz => howns.1.1 (Or.inl hz), fun hn => hoff.absent j ?_⟩
      rw [← hname, hn]
      exact h
    · -- The slot is still vacant, and not the end mark: its name is that of a deleted entry.
      rw [hdone.lost hO hdir hr not_inRange_zero]
      have hz := (h.before i hij).1
      have hdel : (s.volume.slot s.currentDirCluster i).lead = 0xE5 := hoff.vacant.resolve_left hz
      refine ⟨hz, fun hn => h.live.1 (Or.inr ?_)⟩
      rw [FatDirEntry.lead_eq_name11, h.name11, ← hn, ← FatDirEntry.lead_eq_name11]
      exact hdel

theorem AtPath.mkdir {s : Fs} (h : AtPath s) (name : List UInt8) : AtPath (fsMkdir name s).2 := by
  obtain ⟨names, hw, hp⟩ := h.path
  refine ⟨h.toTreeOk.changed (fsMkdir_changed h.owned h.dir name), names, ?_, ?_⟩
  · have hcwd : (fsMkdir name s).2.currentDirCluster = s.currentDirCluster := by
      rcases fsMkdir_edit h.owned h.dir name with hq | ⟨_, i, x, -, hd, -⟩
      · exact hq.currentDirCluster
      · exact hd.currentDirCluster
    rw [hcwd]
    exact hw.kept fun d f11 j hd hf => fsMkdir_found h.owned h.dir name hd hf
  · have hpath : (fsMkdir name s).2.currentPath = s.currentPath := by
      rcases fsMkdir_edit h.owned h.dir name with hq | ⟨_, i, x, -, hd, -⟩
      · exact hq.currentPath
      · exact hd.currentPath
    rw [hpath]
    exact hp

/-- The name of the directory the path leads to next fits in the buffer. -/
def Fs.Fits (s : Fs) (path : List UInt8) : Prop :=
  ∀ i, (s.seek path).idx = some i → (s.volume.slot s.currentDirCluster i).isDir = true →
    (cstr s.currentPath).length + (if 1 < (cstr s.currentPath).length then 1 else 0) +
      (fatNameToPrintable (s.volume.slot s.currentDirCluster i).name11).length < fsMaxPath

theorem AtPath.chdirRelative {s : Fs} (h : AtPath s) {path : List UInt8} (hfit : s.Fits path) :
    AtPath (chdirRelative path s).2 := by
  obtain ⟨names, hw, hp⟩ := h.path
  rcases chdirRelative_cases h.dir.atDir path with hr | ⟨-, ⟨-, -, hq⟩ | ⟨-, h0, hq⟩ | ⟨i, hi, hd, hq⟩⟩
  · exact h.of_quiet hr.quiet
  · exact h.of_quiet hq
  · -- Up: the entry for the parent is the directory the last name was found in.
    obtain ⟨front, n, d, i, rfl, hw', hn, hs⟩ := hw.up h0
    obtain ⟨-, -, -, -, hup⟩ := DirsOk.subDir h.dirs hw'.isDir hs
    rw [hup] at hq
    have hnew : AtPath { s with currentDirCluster := d, currentPath := parentPath s.currentPath } :=
      ⟨⟨h.owned, h.dirs, hw'.isDir⟩, front, hw', hp.parent hw'.isComponent hn⟩
    exact hnew.of_quiet hq
  · -- Down: the name is added.
    have hroom := hfit i hi hd
    obtain ⟨hf, hfound⟩ := seek_found hi
    have ho := hfound.owner hf h.dir
    have hrng := (h.dirs ho hd).inRange
    have hs : SubDir s.volume s.currentDirCluster i (s.volume.slot s.currentDirCluster i).fstClusLo :=
      ⟨ho.slot_lt, ho.owns, hd, rfl, (inRange_iff.mp hrng).1⟩
    rw [hfound.name11] at hroom hq
    rw [hp.cstr_eq] at hroom
    have hnew : AtPath { s with
        currentDirCluster := (s.volume.slot s.currentDirCluster i).fstClusLo
        currentPath := childPath s.currentPath (fatNameToPrintable (nameBytes path)) } :=
      ⟨⟨h.owned, h.dirs, h.child hi hd⟩, _, hw.down hf hfound hs,
        hp.child hw.isComponent (isComponent_printable hf) hroom⟩
    exact hnew.of_quiet hq

/-- The root has room for any name. -/
theorem fits_root {s : Fs} (hp : Holds s.currentPath [0x2F]) (path : List UInt8) : s.Fits path := by
  intro i _ _
  rw [hp.cstr_eq]
  have hlen : (fatNameToPrintable (s.volume.slot s.currentDirCluster i).name11).length ≤ 23 := by
    rw [fatNameToPrintable]
    exact List.length_take_le _ _
  simp only [List.length_cons, List.length_nil, fsMaxPath]
  norm_num
  omega

theorem AtPath.root {s : Fs} (h : TreeOk s) (hlen : s.currentPath.length = fsMaxPath) :
    AtPath { s with currentDirCluster := 0, currentPath := rootPath s.currentPath } :=
  ⟨⟨h.owned, h.dirs, .root⟩, [], .root, holds_rootPath hlen⟩

/-- The condition on a call: a directory is made, or the path grows by what fits. A
`chdir` to an absolute path begins with the root and always fits. -/
def FsOp.InPath : FsOp → Fs → Prop
  | .mkdir _, _ => True
  | .getcwd, _ => True
  | .chdir path, s => path.headD 0 = 0x2F ∨ s.Fits path
  | _, _ => False

theorem AtPath.step {s : Fs} (h : AtPath s) {op : FsOp} (hop : op.InPath s) : AtPath (op.step s) := by
  cases op with
  | mkdir name => exact h.mkdir name
  | getcwd =>
    obtain ⟨names, -, hp⟩ := h.path
    show AtPath (fsGetcwd s).2
    rw [fsGetcwd, if_neg hp.head_ne]
    exact h
  | chdir path =>
    obtain ⟨names, -, hp⟩ := h.path
    have hroot := AtPath.root h.toTreeOk hp.length
    show AtPath (fsChdir path s).2
    simp only [fsChdir]
    split
    · exact h
    · split
      · split
        · exact hroot
        · exact hroot.chdirRelative (fits_root (holds_rootPath hp.length) _)
      · rename_i hrel
        exact h.chdirRelative (hop.resolve_left hrel)
  | _ => exact hop.elim

/-- **The path leads to the working directory.** The string, cut at its slashes and
looked up name by name from the root, ends at the cluster the driver is in. -/
theorem AtPath.resolves {s : Fs} (h : AtPath s) :
    resolve s.volume 0 (components 0x2F (fsGetcwd s).1) = some s.currentDirCluster := by
  obtain ⟨names, hw, hp⟩ := h.path
  have hstr : (fsGetcwd s).1 = pathOf names := by
    rw [fsGetcwd, if_neg hp.head_ne]
    exact hp.cstr_eq
  have hcomp : components 0x2F (pathOf names) = names := by
    rw [pathOf]
    split
    · rename_i hnil
      rw [hnil]
      decide
    · exact components_rooted fun n hn => (hw.isComponent n hn).toIsName
  rw [hstr, hcomp]
  exact hw.resolve

/-- **Over a run** of `fs_mkdir`, `fs_chdir` and `fs_getcwd`, on any mounted tree and
any device, after a first `fs_getcwd`. The first call matters: the buffer starts as
zeros, and `fs_getcwd` is what puts the slash there. -/
theorem path_resolves_run {s : Fs} (h : TreeOk s) (h0 : s.currentDirCluster = 0)
    (hpath : s.currentPath = List.replicate fsMaxPath 0) {ops : List FsOp}
    (hops : Along FsOp.step (fun s op => op.InPath s) (fsGetcwd s).2 ops) :
    resolve (run FsOp.step (fsGetcwd s).2 ops).volume 0
      (components 0x2F (fsGetcwd (run FsOp.step (fsGetcwd s).2 ops)).1) =
      some (run FsOp.step (fsGetcwd s).2 ops).currentDirCluster := by
  have hstart : AtPath (fsGetcwd s).2 := by
    have hzero : s.currentPath.headD 0 = 0 := by rw [hpath]; rfl
    have hroot := AtPath.root h (by rw [hpath, List.length_replicate])
    rw [fsGetcwd, if_pos hzero]
    rwa [← h0] at hroot
  exact (run_invariant (P := AtPath) (fun _ _ hs hop => hs.step hop) hstart hops).resolves

/-- A name of twelve characters. -/
def longName : List UInt8 := List.replicate 8 0x41 ++ 0x2E :: List.replicate 3 0x41

/-- Down into a directory of that name, `n` times. -/
def nestRun (n : Nat) : List FsOp := (List.replicate n [.mkdir longName, .chdir longName]).flatten

/-- Ten levels down the string is too long: the last `fs_chdir` returns 0, and the path is that of
the directory above with a slash after it. -/
theorem nestRun_lost :
    TreeOk freshFs ∧ freshFs.currentDirCluster = 0 ∧
    freshFs.currentPath = List.replicate fsMaxPath 0 ∧
    ((FsOp.chdir longName).exec
      (run FsOp.step (fsGetcwd freshFs).2 (nestRun 9 ++ [.mkdir longName]))).1 = 0 ∧
    resolve (run FsOp.step (fsGetcwd freshFs).2 (nestRun 10)).volume 0
      (components 0x2F (fsGetcwd (run FsOp.step (fsGetcwd freshFs).2 (nestRun 10))).1) ≠
      some (run FsOp.step (fsGetcwd freshFs).2 (nestRun 10)).currentDirCluster := by
  refine ⟨freshFs_empty.treeOk freshFs_cluster, freshFs_cluster,
    (fsInit_fresh blankDisk blankDisk_formats).2.2.1, by decide +kernel, by decide +kernel⟩

/-- Down, up, and down again. -/
theorem path_resolves_run_fresh :
    resolve (run FsOp.step (fsGetcwd freshFs).2 [.mkdir [0x44], .chdir (0x2F :: [0x44]), .mkdir [0x45],
        .chdir [0x2E, 0x2E], .getcwd]).volume 0
      (components 0x2F (fsGetcwd (run FsOp.step (fsGetcwd freshFs).2 [.mkdir [0x44],
        .chdir (0x2F :: [0x44]), .mkdir [0x45], .chdir [0x2E, 0x2E], .getcwd])).1) =
      some (run FsOp.step (fsGetcwd freshFs).2 [.mkdir [0x44], .chdir (0x2F :: [0x44]), .mkdir [0x45],
        .chdir [0x2E, 0x2E], .getcwd]).currentDirCluster := by
  have hup : ∀ s : Fs, s.Fits [0x2E, 0x2E] := by
    intro s i hi
    have hnone : fatNameFromInput [0x2E, 0x2E] = none := by decide
    rw [Fs.seek, hnone] at hi
    exact absurd hi (by simp)
  exact path_resolves_run (freshFs_empty.treeOk freshFs_cluster) freshFs_cluster
    (fsInit_fresh blankDisk blankDisk_formats).2.2.1
    ⟨trivial, Or.inl rfl, trivial, Or.inr (hup _), trivial, trivial⟩

end OsU
