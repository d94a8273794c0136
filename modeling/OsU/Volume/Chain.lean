import OsU.Lib.SuccGraph
import OsU.Fs.Fat
import Mathlib.Data.Finset.Interval
import Mathlib.Order.Interval.Finset.Nat

/-!
# Cluster chains, as sets and as lists

A table is a function from clusters to words here, `fatGet` of a buffer being the one in
use. `OnChain fat first c` is the set of clusters the driver's walks visit, defined for
*every* table: a walk leaves the chain at the first word that is not a cluster number,
whatever it is, and a cyclic chain is a set like any other. `FatChain fat first l` is
the well-formed case: the walk is the list `l` and ends in an end-of-chain word.

The set is reachability along a function, and its general facts are those of
`OsU/Lib/SuccGraph.lean`.

`freeChainLoop_spec` is the fact about `free_chain`: on any table it ends, and it zeroes
exactly the set. The induction is on the fuel, and the number of clusters in use is what
goes down; a cyclic chain is no exception, since the walk comes to a word that it has
cleared itself.
-/

set_option autoImplicit false

namespace OsU

open SuccGraph

/-- Where a walk goes from cluster `c`. -/
def fatSucc (fat : Nat → Nat) (c : Nat) : Option Nat :=
  if InRange (fat c) then some (fat c) else none

/-- The clusters on the chain that starts at `first`. Nothing is on the chain of a
number outside the data area. -/
def OnChain (fat : Nat → Nat) (first c : Nat) : Prop :=
  InRange first ∧ Reach (fatSucc fat) first c

theorem fatSucc_eq_some {fat : Nat → Nat} {c n : Nat} :
    fatSucc fat c = some n ↔ InRange (fat c) ∧ fat c = n := by
  unfold fatSucc
  split <;> simp [*]

theorem OnChain.first_inRange {fat : Nat → Nat} {first c : Nat} (h : OnChain fat first c) :
    InRange first := h.1

theorem OnChain.inRange {fat : Nat → Nat} {first c : Nat} (h : OnChain fat first c) :
    InRange c :=
  h.2.invariant h.1 fun _ _ _ _ hs => by
    obtain ⟨hr, rfl⟩ := fatSucc_eq_some.mp hs
    exact hr

theorem onChain_self {fat : Nat → Nat} {first : Nat} (h : InRange first) :
    OnChain fat first first := ⟨h, Reach.refl _ _⟩

theorem not_onChain {fat : Nat → Nat} {first c : Nat} (h : ¬ InRange first) :
    ¬ OnChain fat first c := fun hc => h hc.1

theorem not_inRange_zero : ¬ InRange 0 := by
  rw [inRange_iff]
  omega

theorem not_inRange_of_eoc {n : Nat} (h : 0xFFF8 ≤ n) : ¬ InRange n := by
  rw [inRange_iff]
  omega

/-- A chain only depends on the words of its own clusters. -/
theorem onChain_congr {fat fat' : Nat → Nat} {first c : Nat}
    (h : ∀ x, OnChain fat first x → fat' x = fat x) :
    OnChain fat' first c ↔ OnChain fat first c := by
  refine and_congr_right fun hr => reach_congr fun x hx => ?_
  simp only [fatSucc, h x ⟨hr, hx⟩]

/-- The chain from a cluster: itself, and the chain of its word in the table with that word
cleared. -/
theorem onChain_head {fat : Nat → Nat} {c x : Nat} (hc : InRange c) :
    OnChain fat c x ↔ x = c ∨ OnChain (Function.update fat c 0) (fat c) x := by
  have hup : fatSucc (Function.update fat c 0) = erase (fatSucc fat) c := by
    funext y
    by_cases hy : y = c
    · rw [hy, erase_self, fatSucc, Function.update_self, if_neg not_inRange_zero]
    · rw [erase_of_ne _ hy, fatSucc, Function.update_of_ne hy, fatSucc]
  by_cases hn : InRange (fat c)
  · have hs : fatSucc fat c = some (fat c) := if_pos hn
    simp only [OnChain, hc, true_and, hn, hup]
    exact reach_erase hs
  · have hs : fatSucc fat c = none := if_neg hn
    simp only [OnChain, hc, true_and, hn, false_and, or_false]
    exact reach_of_succ_none hs

theorem onChain_next {fat : Nat → Nat} {c x : Nat} (hc : InRange c) (hn : InRange (fat c)) :
    OnChain fat c x ↔ x = c ∨ OnChain fat (fat c) x := by
  have hs : fatSucc fat c = some (fat c) := if_pos hn
  simp only [OnChain, hc, hn, true_and]
  rw [reach_iff_head]
  simp only [hs, Option.some.injEq, exists_eq_left']

/-! ## `free_chain` -/

/-- The clusters in use. -/
def usedClusters (fat : Nat → Nat) : Finset Nat :=
  (Finset.Icc fatClusterMin fatClusterMax).filter fun c => fat c ≠ 0

/-- The free clusters. -/
def freeClusters (fat : Nat → Nat) : Finset Nat :=
  (Finset.Icc fatClusterMin fatClusterMax).filter fun c => fat c = 0

theorem mem_usedClusters {fat : Nat → Nat} {c : Nat} :
    c ∈ usedClusters fat ↔ InRange c ∧ fat c ≠ 0 := by
  simp [usedClusters, InRange]

theorem mem_freeClusters {fat : Nat → Nat} {c : Nat} :
    c ∈ freeClusters fat ↔ InRange c ∧ fat c = 0 := by
  simp [freeClusters, InRange]

theorem card_usedClusters_le (fat : Nat → Nat) : (usedClusters fat).card ≤ fatClusterCount := by
  refine (Finset.card_filter_le _ _).trans ?_
  simp [fatClusterMin_eq, fatClusterMax_eq, fatClusterCount_eq]

theorem card_usedClusters_update {fat : Nat → Nat} {c : Nat} (hc : InRange c) (h : fat c ≠ 0) :
    (usedClusters (Function.update fat c 0)).card < (usedClusters fat).card := by
  refine Finset.card_lt_card ⟨fun x hx => ?_, fun hsub => ?_⟩
  · rw [mem_usedClusters] at hx ⊢
    have hxc : x ≠ c := by
      rintro rfl
      exact hx.2 (Function.update_self ..)
    rw [Function.update_of_ne hxc] at hx
    exact hx
  · have := hsub (mem_usedClusters.mpr ⟨hc, h⟩)
    rw [mem_usedClusters, Function.update_self] at this
    exact this.2 rfl

theorem fatGet_fatSet_zero (fat : ByteMem) (c : Nat) :
    fatGet (fatSet fat c 0) = Function.update (fatGet fat) c 0 := by
  funext x
  rw [fatGet_fatSet]
  by_cases h : x = c
  · rw [if_pos h, h, Function.update_self]
  · rw [if_neg h, Function.update_of_ne h]

/-- **`free_chain` ends, and clears exactly the chain.** Each round that goes on clears a word
that was not zero, so the fuel is only ever as much as there are clusters in use. -/
theorem freeChainLoop_spec (n : Nat) (fat : ByteMem) (c : Nat)
    (hn : (usedClusters (fatGet fat)).card < n) :
    ∃ fat', freeChainLoop n fat c = some fat' ∧
      (∀ x, OnChain (fatGet fat) c x → fatGet fat' x = 0) ∧
      (∀ x, ¬ OnChain (fatGet fat) c x → fatGet fat' x = fatGet fat x) := by
  induction n generalizing fat c with
  | zero => omega
  | succ n ih =>
    by_cases hc : InRange c
    · simp only [freeChainLoop, if_pos hc]
      by_cases hstop : 0xFFF8 ≤ fatGet fat c ∨ fatGet fat c = 0
      · have hr : ¬ InRange (fatGet fat c) := by
          rcases hstop with h | h
          · exact not_inRange_of_eoc h
          · rw [h]
            exact not_inRange_zero
        have hon : ∀ x, OnChain (fatGet fat) c x ↔ x = c := fun x => by
          rw [onChain_head hc, or_iff_left (not_onChain hr)]
        refine ⟨_, if_pos hstop, fun x hx => ?_, fun x hx => ?_⟩
        · rw [fatGet_fatSet, if_pos ((hon x).mp hx)]
        · rw [fatGet_fatSet, if_neg (fun h => hx ((hon x).mpr h))]
      · have hne : fatGet fat c ≠ 0 := fun h => hstop (Or.inr h)
        -- The cluster was in use and is free now: one less in use, which is what the
        -- induction is on.
        have hlt : (usedClusters (fatGet (fatSet fat c 0))).card < n := by
          rw [fatGet_fatSet_zero]
          exact Nat.lt_of_lt_of_le (card_usedClusters_update hc hne) (Nat.lt_succ_iff.mp hn)
        obtain ⟨fat', he, hz, hk⟩ := ih (fatSet fat c 0) (fatGet fat c) hlt
        rw [fatGet_fatSet_zero] at hz hk
        refine ⟨fat', by rw [if_neg hstop, he], fun x hx => ?_, fun x hx => ?_⟩
        · rw [onChain_head hc] at hx
          by_cases hx' : OnChain (Function.update (fatGet fat) c 0) (fatGet fat c) x
          · exact hz x hx'
          · rw [hk x hx', hx.resolve_right hx', Function.update_self]
        · rw [onChain_head hc, not_or] at hx
          rw [hk x hx.2, Function.update_of_ne hx.1]
    · refine ⟨fat, if_neg hc, fun x hx => absurd hx (not_onChain hc), fun x _ => rfl⟩

theorem freeChain_eq (fat : ByteMem) (first : Nat) :
    (∀ x, OnChain (fatGet fat) first x → fatGet (freeChain fat first) x = 0) ∧
    (∀ x, ¬ OnChain (fatGet fat) first x → fatGet (freeChain fat first) x = fatGet fat x) := by
  obtain ⟨fat', he, h⟩ := freeChainLoop_spec (fatClusterCount + 1) fat first
    (Nat.lt_succ_of_le (card_usedClusters_le _))
  rw [freeChain, he]
  exact h

theorem freeChain_of_onChain {fat : ByteMem} {first x : Nat} (h : OnChain (fatGet fat) first x) :
    fatGet (freeChain fat first) x = 0 := (freeChain_eq fat first).1 x h

theorem freeChain_of_not_onChain {fat : ByteMem} {first x : Nat}
    (h : ¬ OnChain (fatGet fat) first x) : fatGet (freeChain fat first) x = fatGet fat x :=
  (freeChain_eq fat first).2 x h

/-! ## Well-formed chains -/

/-- `l` is the whole chain from `first`: clusters of the data area, each the word of the one
before, the last one marked as the end. -/
inductive FatChain (fat : Nat → Nat) : Nat → List Nat → Prop
  | last {c : Nat} : InRange c → 0xFFF8 ≤ fat c → FatChain fat c [c]
  | link {c : Nat} {l : List Nat} : InRange c → FatChain fat (fat c) l → FatChain fat c (c :: l)

namespace FatChain

variable {fat fat' : Nat → Nat} {first : Nat} {l : List Nat}

theorem first_inRange (h : FatChain fat first l) : InRange first := by
  cases h <;> assumption

theorem ne_nil (h : FatChain fat first l) : l ≠ [] := by
  cases h <;> simp

theorem inRange (h : FatChain fat first l) : ∀ c ∈ l, InRange c := by
  induction h with
  | last hc _ => simpa using hc
  | link hc _ ih =>
    intro x hx
    rcases List.mem_cons.mp hx with rfl | hx
    · exact hc
    · exact ih x hx

/-- No cluster of a well-formed chain is free. -/
theorem fat_ne_zero (h : FatChain fat first l) : ∀ c ∈ l, fat c ≠ 0 := by
  induction h with
  | last _ he =>
    intro x hx
    rw [List.mem_singleton.mp hx]
    omega
  | link _ ht ih =>
    intro x hx
    rcases List.mem_cons.mp hx with rfl | hx
    · exact fun h0 => not_inRange_zero (h0 ▸ ht.first_inRange)
    · exact ih x hx

theorem unique {l' : List Nat} (h : FatChain fat first l) (h' : FatChain fat first l') : l = l' := by
  induction h generalizing l' with
  | last _ he =>
    cases h' with
    | last _ _ => rfl
    | link _ ht => exact absurd ht.first_inRange (not_inRange_of_eoc he)
  | link _ ht ih =>
    cases h' with
    | last _ he => exact absurd ht.first_inRange (not_inRange_of_eoc he)
    | link _ ht' => rw [ih ht']

/-- From any of its clusters, the rest of the chain is a chain. -/
theorem suffix (h : FatChain fat first l) : ∀ c ∈ l, ∃ l', l' <:+ l ∧ FatChain fat c l' := by
  induction h with
  | last hc he =>
    intro x hx
    rw [List.mem_singleton.mp hx]
    exact ⟨_, List.suffix_refl _, .last hc he⟩
  | link hc ht ih =>
    intro x hx
    rcases List.mem_cons.mp hx with rfl | hx
    · exact ⟨_, List.suffix_refl _, .link hc ht⟩
    · obtain ⟨l', hs, h'⟩ := ih x hx
      exact ⟨l', hs.trans (List.suffix_cons _ _), h'⟩

/-- A well-formed chain visits no cluster twice: the rest of the chain from a second visit would
be the chain itself. -/
theorem nodup (h : FatChain fat first l) : l.Nodup := by
  induction h with
  | last _ _ => simp
  | link hc ht ih =>
    refine List.nodup_cons.mpr ⟨fun hm => ?_, ih⟩
    obtain ⟨l', hs, h'⟩ := ht.suffix _ hm
    have he := h'.unique (.link hc ht)
    have := hs.length_le
    rw [he, List.length_cons] at this
    omega

theorem mem_iff (h : FatChain fat first l) (x : Nat) : x ∈ l ↔ OnChain fat first x := by
  induction h with
  | last hc he =>
    rw [List.mem_singleton, onChain_head hc, or_iff_left (not_onChain (not_inRange_of_eoc he))]
  | link hc ht ih =>
    rw [List.mem_cons, ih, onChain_next hc ht.first_inRange]

/-- A chain begins with its first cluster. -/
theorem head_eq (h : FatChain fat first l) {c : Nat} (hc : l[0]? = some c) : c = first := by
  cases h with
  | last => exact (Option.some.inj hc).symm
  | link => exact (Option.some.inj hc).symm

/-- Each cluster has the next one in the table. -/
theorem next (h : FatChain fat first l) {k c c' : Nat} (hc : l[k]? = some c)
    (hc' : l[k + 1]? = some c') : fat c = c' := by
  induction h generalizing k with
  | last => exact nomatch hc'
  | link hr ht ih =>
    cases k with
    | zero =>
      obtain rfl := Option.some.inj hc
      exact (ht.head_eq hc').symm
    | succ k => exact ih hc hc'

theorem congr (h : FatChain fat first l) (hc : ∀ c ∈ l, fat' c = fat c) :
    FatChain fat' first l := by
  induction h with
  | last hr he => exact .last hr (by rwa [hc _ (by simp)])
  | link hr _ ih =>
    refine .link hr ?_
    rw [hc _ (by simp)]
    exact ih fun x hx => hc x (List.mem_cons_of_mem _ hx)

/-- A chain grows by one cluster at its end. -/
theorem snoc {p c : Nat} (h : FatChain fat first l) (hp : l.getLast? = some p) (hcl : c ∉ l)
    (hc : InRange c) (hpc : fat' p = c) (heoc : 0xFFF8 ≤ fat' c)
    (hk : ∀ x ∈ l, x ≠ p → fat' x = fat x) : FatChain fat' first (l ++ [c]) := by
  have hnd := h.nodup
  induction h with
  | last hr _ =>
    obtain rfl : _ = p := by simpa using hp
    exact .link hr (by rw [hpc]; exact .last hc heoc)
  | @link a l' hr ht ih =>
    have hp' : l'.getLast? = some p := by
      rw [List.getLast?_cons, Option.some.injEq] at hp
      rw [← hp]
      cases hl : l'.getLast? with
      | none => exact absurd (List.getLast?_eq_none_iff.mp hl) ht.ne_nil
      | some q => rfl
    have hap : a ≠ p := by
      rintro rfl
      exact (List.nodup_cons.mp hnd).1 (List.mem_of_getLast? hp')
    refine .link hr ?_
    rw [hk a (by simp) hap]
    exact ih hp' (fun hm => hcl (List.mem_cons_of_mem _ hm))
      (fun x hx => hk x (List.mem_cons_of_mem _ hx)) (List.nodup_cons.mp hnd).2

end FatChain

end OsU
