import OsU.Fs.Dir
import OsU.Volume.Chain

/-!
# The volume as a tree of directories

What the driver's state means, without the buffers: a table, the entries of the root,
and the sectors of the data area (`Volume`). The tree is what the live directory entries
span from the root, `.` and `..` left out; its entries are the owners, each of the
clusters of its chain.

The invariants of the development are stated here. `Owned` is the weakest of use: every
cluster of a chain is marked, and belongs to one entry. `ChainsOk` adds that chains are
well formed, and `DirsOk` that a directory has a sector of its own, which names itself
and its parent.

The volume is read from the buffers in memory, not from the disk, because the driver
works on these. That the disk says the same after a successful call is a result of its
own (`OsU/Proof/Coherence.lean`). Directories other than the root have no buffer between
two calls, so their entries are those of their sectors.

Nothing here says that the tree is finite or free of cycles: a directory entry that
leads to an ancestor is a directory like any other for `IsDir`, and only `Owned`
excludes it.
-/

set_option autoImplicit false

namespace OsU

/-- The file-allocation table, the root directory and the data area. -/
structure Volume where
  fat : Nat → Nat
  root : Nat → FatDirEntry
  sector : Nat → Sector

/-- `ent[i]` of a directory. -/
def Volume.slot (v : Volume) (d i : Nat) : FatDirEntry :=
  if d = 0 then v.root i else entryAt (v.sector d).mem i

/-- The volume the driver works on: table and root from their buffers, the rest from the disk. -/
def Fs.volume (s : Fs) : Volume where
  fat := fatGet s.fatBuf
  root := entryAt s.rootBuf
  sector := fun c => s.dev.sectors (4135 + c)

/-- The number of a directory: the root, or a cluster. -/
def DirNo (d : Nat) : Prop := d = 0 ∨ 2 ≤ d

instance (d : Nat) : Decidable (DirNo d) := inferInstanceAs (Decidable (_ ∨ _))

namespace FatDirEntry

/-- A `.` or `..` entry. -/
def IsDot (e : FatDirEntry) : Prop := e.name11 = dotName ∨ e.name11 = dotdotName

instance (e : FatDirEntry) : Decidable e.IsDot := inferInstanceAs (Decidable (_ ∨ _))

/-- An entry that owns what it points to. -/
def Owns (e : FatDirEntry) : Prop := e.Live ∧ ¬ e.IsDot

instance (e : FatDirEntry) : Decidable e.Owns := inferInstanceAs (Decidable (_ ∧ _))

theorem IsDot.lead_eq {e : FatDirEntry} (h : e.IsDot) : e.lead = 0x2E := by
  rw [e.lead_eq_name11]
  rcases h with h | h <;> rw [h] <;> rfl

/-- An entry whose name the encoder made owns what it points to. -/
theorem owns_of_name {e : FatDirEntry} {name f11 : List UInt8}
    (hf : fatNameFromInput name = some f11) (hn : e.name11 = f11) (ha : e.attr ≠ 0x0F) :
    e.Owns := by
  have hv := valid_ne (head_of_fatNameFromInput hf)
  have hl : e.lead = f11.getD 0 0 := by rw [e.lead_eq_name11, hn]
  rw [← hl] at hv
  refine ⟨⟨?_, ha⟩, fun hd => hv.2.2.1 hd.lead_eq⟩
  rintro (h | h)
  · exact hv.1 h
  · exact hv.2.2.2.2 h

end FatDirEntry

/-! ## Directories and owners -/

section Tree

variable (v : Volume)

/-- Slot `i` of directory `d` is the directory with cluster `c`, one that has a sector
of its own: an entry that points to the root, or to no cluster, is none. -/
structure SubDir (d i c : Nat) : Prop where
  slot_lt : i < maxEntries d
  owns : (v.slot d i).Owns
  isDir : (v.slot d i).isDir = true
  clus : (v.slot d i).fstClusLo = c
  two_le : 2 ≤ c

/-- The directories of the tree. -/
inductive IsDir : Nat → Prop
  | root : IsDir 0
  | sub {d i c : Nat} : IsDir d → SubDir v d i c → IsDir c

/-- Slot `i` of directory `d` is an entry of the tree. -/
structure Owner (d i : Nat) : Prop where
  dir : IsDir v d
  slot_lt : i < maxEntries d
  owns : (v.slot d i).Owns

/-- Cluster `c` is on the chain of slot `i` of directory `d`. -/
def Chain (d i c : Nat) : Prop := OnChain v.fat (v.slot d i).fstClusLo c

/-- Every cluster on the chain of an entry is marked, and is on no other entry's. -/
structure Owned : Prop where
  used : ∀ {d i c : Nat}, Owner v d i → Chain v d i c → v.fat c ≠ 0
  alone : ∀ {d i d' i' c : Nat}, Owner v d i → Owner v d' i' → Chain v d i c → Chain v d' i' c →
    d = d' ∧ i = i'

/-- The chain of an entry is empty, or a list of clusters up to an end mark. -/
def ChainOk (e : FatDirEntry) : Prop :=
  e.fstClusLo < fatClusterMin ∨ ∃ l, FatChain v.fat e.fstClusLo l

/-- The chains of the entries are well formed and disjoint. -/
structure ChainsOk : Prop where
  chain : ∀ {d i : Nat}, Owner v d i → ChainOk v (v.slot d i)
  alone : ∀ {d i d' i' c : Nat}, Owner v d i → Owner v d' i' → Chain v d i c → Chain v d' i' c →
    d = d' ∧ i = i'

/-- What the entry `e` of a directory in directory `d` promises: a cluster of the data area, in
use, that starts with an entry for itself and one for `d`. -/
structure DirOk (d : Nat) (e : FatDirEntry) : Prop where
  inRange : InRange e.fstClusLo
  used : v.fat e.fstClusLo ≠ 0
  dot : (v.slot e.fstClusLo 0).name11 = dotName
  dot_clus : (v.slot e.fstClusLo 0).fstClusLo = e.fstClusLo
  dotdot : (v.slot e.fstClusLo 1).name11 = dotdotName
  dotdot_clus : (v.slot e.fstClusLo 1).fstClusLo = d

/-- Every directory entry of the tree keeps that promise. -/
def DirsOk : Prop := ∀ {d i : Nat}, Owner v d i → (v.slot d i).isDir = true → DirOk v d (v.slot d i)

end Tree

variable {v : Volume}

theorem SubDir.owner {d i c : Nat} (h : SubDir v d i c) (hd : IsDir v d) : Owner v d i :=
  ⟨hd, h.slot_lt, h.owns⟩

theorem SubDir.chain_self {d i c : Nat} (h : SubDir v d i c) (hc : InRange c) : Chain v d i c := by
  rw [Chain, h.clus]
  exact onChain_self hc

/-- A directory is the root, or some directory's subdirectory. -/
theorem IsDir.cases_sub {d : Nat} (h : IsDir v d) :
    d = 0 ∨ ∃ p i, IsDir v p ∧ SubDir v p i d := by
  cases h with
  | root => exact Or.inl rfl
  | sub hp hs => exact Or.inr ⟨_, _, hp, hs⟩

/-- When the root has no entries, it is the tree. -/
theorem IsDir.eq_root {d : Nat} (hd : IsDir v d) (h : ∀ i < maxEntries 0, ¬ (v.slot 0 i).Owns) :
    d = 0 := by
  induction hd with
  | root => rfl
  | sub _ hs ih =>
    subst ih
    exact absurd hs.owns (h _ hs.slot_lt)

theorem IsDir.dirNo {d : Nat} (h : IsDir v d) : DirNo d := by
  rcases h.cases_sub with rfl | ⟨p, i, -, hs⟩
  · exact Or.inl rfl
  · exact Or.inr hs.two_le

theorem IsDir.lt {d : Nat} (h : IsDir v d) : d < 65536 := by
  rcases h.cases_sub with rfl | ⟨p, i, -, hs⟩
  · omega
  · rw [← hs.clus]
    exact FatDirEntry.fstClusLo_lt _

/-- Well-formed chains are marked all along. -/
theorem ChainsOk.owned (h : ChainsOk v) : Owned v where
  used := by
    intro d i c ho hc
    rcases h.chain ho with hlt | ⟨l, hl⟩
    · have := (inRange_iff.mp hc.first_inRange).1
      rw [fatClusterMin_eq] at hlt
      omega
    · exact hl.fat_ne_zero c ((hl.mem_iff c).mpr hc)
  alone := h.alone

/-- The promise of a directory as its subdirectory entry: the slot numbers spelt with `c`. -/
theorem DirsOk.subDir (h : DirsOk v) {d i c : Nat} (hd : IsDir v d) (hs : SubDir v d i c) :
    InRange c ∧ v.fat c ≠ 0 ∧ (v.slot c 0).IsDot ∧ (v.slot c 1).IsDot ∧
      (v.slot c 1).fstClusLo = d := by
  obtain ⟨h₁, h₂, h₃, -, h₄, h₅⟩ := h (hs.owner hd) hs.isDir
  rw [hs.clus] at h₁ h₂ h₃ h₄ h₅
  exact ⟨h₁, h₂, Or.inl h₃, Or.inr h₄, h₅⟩

end OsU
