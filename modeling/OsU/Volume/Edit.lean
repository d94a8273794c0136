import OsU.Volume.Tree

/-!
# One edit of the tree

Every operation that changes the volume does it in one shape: it frees the chain of one
slot, links fresh clusters into a new chain, stores sectors of clusters that are free by
then, and puts a new entry into the slot (`Edit`). What the old and the new entry may be
is `EditKind`; there are four of them, and one of them is an edit whose entry was never
stored.

The theorems here are about any edit of the four kinds, so they are proved once for all
the operations: the tree is the old one up to the slot (`Edit.isDir_cases`,
`Edit.owner_cases`), and ownership, chains and directories are as sound as before.

## Why failures are edits too

An operation that fails half way is not an undone one: the table in memory has lost the
old chain, or has a new one that no entry names. `EditKind.lost` is the kind of those,
with the entry as it was and no chain freed; an operation that freed the chain of an
entry and did not store the entry is none of the four, and it is the one that breaks
ownership.

The cluster of the directory under edit may be stored over, by its own flush and nothing
else; the clauses of `Edit` leave it out where they must.
-/

set_option autoImplicit false

namespace OsU

/-- From table `fat` to `fat'`: the chain of `first` is freed, and the clusters `l`, free by then,
are a chain. -/
structure FatEdit (fat fat' : Nat → Nat) (first : Nat) (l : List Nat) : Prop where
  chain : l ≠ [] → FatChain fat' (l.headD 0) l
  freed : ∀ c, c ∉ l → OnChain fat first c → fat' c = 0
  kept : ∀ c, c ∉ l → ¬ OnChain fat first c → fat' c = fat c
  fresh : ∀ c ∈ l, InRange c ∧ (fat c = 0 ∨ OnChain fat first c)

/-- An edit of slot `i` of directory `d`; `ws` are the clusters whose sectors were
stored. They were free, or on the chain that was given up. All other slots, and all
other sectors, are as they were. -/
structure Edit (v v' : Volume) (d i first : Nat) (l ws : List Nat) : Prop
    extends FatEdit v.fat v'.fat first l where
  stored : ∀ c ∈ ws, InRange c ∧ (v.fat c = 0 ∨ OnChain v.fat first c)
  slot_kept : ∀ d' j, DirNo d' → d' ∉ ws → j < maxEntries d' → ¬ (d' = d ∧ j = i) →
    v'.slot d' j = v.slot d' j
  sector_kept : ∀ c, 2 ≤ c → c ∉ ws → c ≠ d → v'.sector c = v.sector c

/-- What happens to the slot. -/
inductive EditKind (v v' : Volume) (d i first : Nat) (l ws : List Nat) : Prop
  /-- Nothing, and nothing was freed: what was allocated is lost. -/
  | lost : ¬ InRange first → v'.slot d i = v.slot d i → EditKind v v' d i first l ws
  /-- The entry is deleted. -/
  | cleared : ¬ (v'.slot d i).Owns → l = [] → ws = [] → EditKind v v' d i first l ws
  /-- It holds a file now, and held no directory before. -/
  | file : (∀ c, ¬ SubDir v d i c) → (v'.slot d i).isDir = false →
      (v'.slot d i).fstClusLo = l.headD 0 → EditKind v v' d i first l ws
  /-- It holds a new directory with nothing in it. -/
  | made (a : Nat) : ¬ (v.slot d i).Owns → l = [a] → (v'.slot d i).fstClusLo = a →
      DirOk v' d (v'.slot d i) → (∀ j < 16, ¬ (v'.slot a j).Owns) → EditKind v v' d i first l ws

/-- The side conditions of an edit: the directory is in the tree, and a chain is freed only for
the entry that owns it. -/
structure EditOk (v v' : Volume) (d i first : Nat) (l ws : List Nat) : Prop
    extends Edit v v' d i first l ws where
  dir : IsDir v d
  own : InRange first → Owner v d i ∧ (v.slot d i).fstClusLo = first
  kind : EditKind v v' d i first l ws

/-- A directory with a cluster of the data area: the entry that leads to it owns the cluster. -/
theorem Owned.dir_owner {v : Volume} (hO : Owned v) {d : Nat} (hd : IsDir v d) (hr : InRange d) :
    ∃ p j, Owner v p j ∧ SubDir v p j d ∧ Chain v p j d ∧ v.fat d ≠ 0 := by
  rcases hd.cases_sub with rfl | ⟨p, j, hp, hs⟩
  · exact absurd hr not_inRange_zero
  · have hch := hs.chain_self hr
    exact ⟨p, j, hs.owner hp, hs, hch, hO.used (hs.owner hp) hch⟩

/-- A directory of the tree is not free, nor does it become free with the chain of a file. -/
theorem Owned.dir_not_free {v : Volume} (hO : Owned v) {d i first d' : Nat} (hd' : IsDir v d')
    (hr : InRange d') (hfree : v.fat d' = 0 ∨ OnChain v.fat first d')
    (hown : InRange first → Owner v d i ∧ (v.slot d i).fstClusLo = first) :
    InRange first ∧ SubDir v d i d' := by
  obtain ⟨p, j, ho, hs, hch, hu⟩ := hO.dir_owner hd' hr
  have hon := hfree.resolve_left hu
  obtain ⟨hoi, hfirst⟩ := hown hon.first_inRange
  have hchi : Chain v d i d' := by rwa [Chain, hfirst]
  obtain ⟨rfl, rfl⟩ := hO.alone ho hoi hch hchi
  exact ⟨hon.first_inRange, hs⟩

namespace EditOk

variable {v v' : Volume} {d i first : Nat} {l ws : List Nat}

/-- **No directory of the tree is stored over.** Its cluster is marked, so it would have to be on
the chain that was freed, and then it is the entry under edit that leads to it. -/
theorem not_stored (h : EditOk v v' d i first l ws) (hO : Owned v) {d' : Nat} (hd' : IsDir v d') :
    d' ∉ ws := by
  intro hw
  obtain ⟨hr, hfree⟩ := h.stored d' hw
  obtain ⟨hfirst, hs⟩ := hO.dir_not_free hd' hr hfree h.own
  cases h.kind with
  | lost hn _ => exact hn hfirst
  | cleared _ _ he => rw [he] at hw; exact absurd hw (by simp)
  | file hn _ _ => exact hn _ hs
  | made a hn _ _ _ _ => exact hn hs.owns

/-- Away from the slot, the directories of the tree hold what they held. -/
theorem slot_eq (h : EditOk v v' d i first l ws) (hO : Owned v) {d' j : Nat} (hd' : IsDir v d')
    (hj : j < maxEntries d') (hne : ¬ (d' = d ∧ j = i)) : v'.slot d' j = v.slot d' j :=
  h.slot_kept d' j hd'.dirNo (h.not_stored hO hd') hj hne

theorem subDir_iff (h : EditOk v v' d i first l ws) (hO : Owned v) {d' j c : Nat}
    (hd' : IsDir v d') (hne : ¬ (d' = d ∧ j = i)) : SubDir v' d' j c ↔ SubDir v d' j c := by
  constructor
  · rintro ⟨h₁, h₂, h₃, h₄, h₅⟩
    rw [h.slot_eq hO hd' h₁ hne] at h₂ h₃ h₄
    exact ⟨h₁, h₂, h₃, h₄, h₅⟩
  · rintro ⟨h₁, h₂, h₃, h₄, h₅⟩
    rw [← h.slot_eq hO hd' h₁ hne] at h₂ h₃ h₄
    exact ⟨h₁, h₂, h₃, h₄, h₅⟩

/-- A subdirectory in the slot after the edit: it was there before, or it is new and empty. -/
theorem subDir_cases (h : EditOk v v' d i first l ws) {c : Nat} (hs : SubDir v' d i c) :
    (¬ InRange first ∧ v'.slot d i = v.slot d i ∧ SubDir v d i c) ∨
      (l = [c] ∧ ¬ (v.slot d i).Owns ∧ DirOk v' d (v'.slot d i) ∧
        ∀ j < 16, ¬ (v'.slot c j).Owns) := by
  cases h.kind with
  | lost hn he =>
    refine Or.inl ⟨hn, he, hs.slot_lt, ?_, ?_, ?_, hs.two_le⟩
    · rw [← he]; exact hs.owns
    · rw [← he]; exact hs.isDir
    · rw [← he]; exact hs.clus
  | cleared hn _ _ => exact absurd hs.owns hn
  | file _ hf _ => exact absurd hs.isDir (by rw [hf]; decide)
  | made a hn hl hc hok he =>
    obtain rfl : a = c := hc.symm.trans hs.clus
    exact Or.inr ⟨hl, hn, hok, he⟩

/-- **The directories after the edit** are directories of the old tree, or the new one. Induction
on the path from the root. -/
theorem isDir_cases (h : EditOk v v' d i first l ws) (hO : Owned v) {d' : Nat}
    (hd' : IsDir v' d') :
    IsDir v d' ∨ (l = [d'] ∧ d' ≠ 0 ∧ ∀ j < maxEntries d', ¬ (v'.slot d' j).Owns) := by
  induction hd' with
  | root => exact Or.inl .root
  | @sub p j c _ hs ih =>
    rcases ih with hp | ⟨-, -, hnone⟩
    · by_cases hpj : p = d ∧ j = i
      · obtain ⟨rfl, rfl⟩ := hpj
        rcases h.subDir_cases hs with ⟨-, -, hs'⟩ | ⟨hl, -, -, he⟩
        · exact Or.inl (.sub hp hs')
        · have hc : c ≠ 0 := fun h0 => by have := hs.two_le; omega
          refine Or.inr ⟨hl, hc, fun j hj => he j ?_⟩
          rwa [maxEntries, if_neg hc] at hj
      · exact Or.inl (.sub hp ((h.subDir_iff hO hp hpj).mp hs))
    · exact absurd hs.owns (hnone j hs.slot_lt)

/-- An entry after the edit: one of the old tree, with its chain out of the way, or the one in the
slot, with the new chain. -/
theorem owner_cases (h : EditOk v v' d i first l ws) (hO : Owned v) {d' j : Nat}
    (ho : Owner v' d' j) :
    (Owner v d' j ∧ v'.slot d' j = v.slot d' j ∧ (InRange first → ¬ (d' = d ∧ j = i))) ∨
      (d' = d ∧ j = i ∧ (v'.slot d i).fstClusLo = l.headD 0 ∧
        ((v'.slot d i).isDir = true → DirOk v' d (v'.slot d i))) := by
  rcases h.isDir_cases hO ho.dir with hd' | ⟨-, -, hnone⟩
  · by_cases hdj : d' = d ∧ j = i
    · obtain ⟨rfl, rfl⟩ := hdj
      cases h.kind with
      | lost hn he => exact Or.inl ⟨⟨hd', ho.slot_lt, he ▸ ho.owns⟩, he, fun hr => absurd hr hn⟩
      | cleared hn _ _ => exact absurd ho.owns hn
      | file _ hf hc => exact Or.inr ⟨rfl, rfl, hc, fun hd => absurd hd (by rw [hf]; decide)⟩
      | made a _ hl hc hok _ => exact Or.inr ⟨rfl, rfl, by rw [hc, hl]; rfl, fun _ => hok⟩
    · have he := h.slot_eq hO hd' ho.slot_lt hdj
      exact Or.inl ⟨⟨hd', ho.slot_lt, he ▸ ho.owns⟩, he, fun _ => hdj⟩
  · exact absurd ho.owns (hnone j ho.slot_lt)

/-- The chain of an entry that is not the one freed: none of it was touched. -/
theorem off_chain (h : EditOk v v' d i first l ws) (hO : Owned v) {d' j c : Nat}
    (ho : Owner v d' j) (hne : InRange first → ¬ (d' = d ∧ j = i)) (hc : Chain v d' j c) :
    c ∉ l ∧ c ∉ ws ∧ ¬ OnChain v.fat first c := by
  have hon : ¬ OnChain v.fat first c := by
    intro hon
    obtain ⟨hoi, hfirst⟩ := h.own hon.first_inRange
    have hci : Chain v d i c := by rwa [Chain, hfirst]
    exact hne hon.first_inRange (hO.alone ho hoi hc hci)
  have huse := hO.used ho hc
  exact ⟨fun hl => ((h.fresh c hl).2.elim huse hon), fun hw => ((h.stored c hw).2.elim huse hon), hon⟩

theorem fat_eq (h : EditOk v v' d i first l ws) (hO : Owned v) {d' j c : Nat}
    (ho : Owner v d' j) (hne : InRange first → ¬ (d' = d ∧ j = i)) (hc : Chain v d' j c) :
    v'.fat c = v.fat c := by
  obtain ⟨hl, -, hon⟩ := h.off_chain hO ho hne hc
  exact h.kept c hl hon

theorem onChain_iff (h : EditOk v v' d i first l ws) (hO : Owned v) {d' j c : Nat}
    (ho : Owner v d' j) (hne : InRange first → ¬ (d' = d ∧ j = i)) :
    OnChain v'.fat (v.slot d' j).fstClusLo c ↔ Chain v d' j c :=
  onChain_congr fun _ hx => h.fat_eq hO ho hne hx

/-- The chain of the slot after the edit is the list of fresh clusters. -/
theorem new_chain (h : EditOk v v' d i first l ws)
    (hc : (v'.slot d i).fstClusLo = l.headD 0) {c : Nat} : Chain v' d i c ↔ c ∈ l := by
  rw [Chain, hc]
  by_cases hl : l = []
  · rw [hl]
    simpa using not_onChain not_inRange_zero
  · exact ((h.chain hl).mem_iff c).symm

/-- **Ownership is kept.** -/
theorem owned (h : EditOk v v' d i first l ws) (hO : Owned v) : Owned v' where
  used := by
    intro d' j c ho hc
    rcases h.owner_cases hO ho with ⟨ho', he, hne⟩ | ⟨rfl, rfl, hcl, -⟩
    · rw [Chain, he, h.onChain_iff hO ho' hne] at hc
      rw [h.fat_eq hO ho' hne hc]
      exact hO.used ho' hc
    · have hl := (h.new_chain hcl).mp hc
      exact (h.chain (List.ne_nil_of_mem hl)).fat_ne_zero c hl
  alone := by
    intro d₁ j₁ d₂ j₂ c ho₁ ho₂ hc₁ hc₂
    rcases h.owner_cases hO ho₁ with ⟨ho₁', he₁, hne₁⟩ | ⟨rfl, rfl, hcl₁, -⟩ <;>
      rcases h.owner_cases hO ho₂ with ⟨ho₂', he₂, hne₂⟩ | ⟨rfl, rfl, hcl₂, -⟩
    · rw [Chain, he₁, h.onChain_iff hO ho₁' hne₁] at hc₁
      rw [Chain, he₂, h.onChain_iff hO ho₂' hne₂] at hc₂
      exact hO.alone ho₁' ho₂' hc₁ hc₂
    · rw [Chain, he₁, h.onChain_iff hO ho₁' hne₁] at hc₁
      exact absurd ((h.new_chain hcl₂).mp hc₂) (h.off_chain hO ho₁' hne₁ hc₁).1
    · rw [Chain, he₂, h.onChain_iff hO ho₂' hne₂] at hc₂
      exact absurd ((h.new_chain hcl₁).mp hc₁) (h.off_chain hO ho₂' hne₂ hc₂).1
    · exact ⟨rfl, rfl⟩

/-- **Chains stay well formed.** -/
theorem chainsOk (h : EditOk v v' d i first l ws) (hC : ChainsOk v) : ChainsOk v' where
  chain := by
    intro d' j ho
    rcases h.owner_cases hC.owned ho with ⟨ho', he, hne⟩ | ⟨rfl, rfl, hcl, -⟩
    · rw [he]
      rcases hC.chain ho' with hlt | ⟨l', hl'⟩
      · exact Or.inl hlt
      · exact Or.inr ⟨l', hl'.congr fun c hc => h.fat_eq hC.owned ho' hne ((hl'.mem_iff c).mp hc)⟩
    · rw [ChainOk, hcl]
      by_cases hl : l = []
      · exact Or.inl (by rw [hl]; decide)
      · exact Or.inr ⟨l, h.chain hl⟩
  alone := (h.owned hC.owned).alone

/-- **Directories keep their promise**, provided the slot was not one of theirs to make it. -/
theorem dirsOk (h : EditOk v v' d i first l ws) (hO : Owned v) (hD : DirsOk v)
    (hdot : ¬ (v.slot d i).IsDot) : DirsOk v' := by
  intro d' j ho hdir
  rcases h.owner_cases hO ho with ⟨ho', he, hne⟩ | ⟨rfl, rfl, -, hok⟩
  · rw [he] at hdir ⊢
    obtain ⟨h₁, h₂, h₃, h₄, h₅, h₆⟩ := hD ho' hdir
    have hc2 := (inRange_iff.mp h₁).1
    have hc : IsDir v (v.slot d' j).fstClusLo := .sub ho'.dir ⟨ho'.slot_lt, ho'.owns, hdir, rfl, hc2⟩
    have hmax : maxEntries (v.slot d' j).fstClusLo = 16 := if_neg (by omega)
    have hs₀ := h.slot_eq hO hc (j := 0) (by rw [hmax]; omega) fun hd => hdot (by
      rw [← hd.1, ← hd.2]; exact Or.inl h₃)
    have hs₁ := h.slot_eq hO hc (j := 1) (by rw [hmax]; omega) fun hd => hdot (by
      rw [← hd.1, ← hd.2]; exact Or.inr h₅)
    refine ⟨h₁, ?_, by rw [hs₀, h₃], by rw [hs₀, h₄], by rw [hs₁, h₅], by rw [hs₁, h₆]⟩
    rw [h.fat_eq hO ho' hne (onChain_self h₁)]
    exact h₂
  · exact hok hdir

/-! ## What is still there -/

/-- The directory under edit stays: a path to it need not go through itself. -/
theorem isDir_self (h : EditOk v v' d i first l ws) (hO : Owned v) : IsDir v' d := by
  have key : ∀ d', IsDir v d' → IsDir v' d ∨ IsDir v' d' := by
    intro d' hd'
    induction hd' with
    | root => exact Or.inr .root
    | @sub p j c hp hs ih =>
      rcases ih with ih | ih
      · exact Or.inl ih
      · by_cases hpj : p = d ∧ j = i
        · exact Or.inl (hpj.1 ▸ ih)
        · exact Or.inr (.sub ih ((h.subDir_iff hO hp hpj).mpr hs))
  exact (key d h.dir).elim id id

/-- Every directory stays when the subdirectory in the slot does. -/
theorem isDir_of (h : EditOk v v' d i first l ws) (hO : Owned v)
    (hkeep : ∀ c, SubDir v d i c → SubDir v' d i c) {d' : Nat} (hd' : IsDir v d') :
    IsDir v' d' := by
  induction hd' with
  | root => exact .root
  | @sub p j c hp hs ih =>
    by_cases hpj : p = d ∧ j = i
    · obtain ⟨rfl, rfl⟩ := hpj
      exact .sub ih (hkeep c hs)
    · exact .sub ih ((h.subDir_iff hO hp hpj).mpr hs)

theorem owner_of (h : EditOk v v' d i first l ws) (hO : Owned v) {d' j : Nat}
    (ho : Owner v d' j) (hd' : IsDir v' d') (hne : ¬ (d' = d ∧ j = i)) : Owner v' d' j :=
  ⟨hd', ho.slot_lt, by rw [h.slot_eq hO ho.dir ho.slot_lt hne]; exact ho.owns⟩

end EditOk

end OsU
