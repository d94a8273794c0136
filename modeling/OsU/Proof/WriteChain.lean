import OsU.Fs.File
import OsU.Volume.Chain

/-!
# `write_cluster_chain`: all or nothing

The loop holds a partial chain: fresh clusters, linked in the order they were found, the
rest of the table as it was before the call (`Links`), with the data so far in their
sectors (`Partial`). One round adds a cluster to it or gives up, and giving up frees the
partial chain, which puts the table back word for word. So there are two outcomes
(`writeClusterChain_cases`), and which one it is depends on two things only: are there
enough free clusters, and does the device store the sectors.

The table is arbitrary. A word that is zero is a free cluster, and nothing else is asked
of the others; they are never followed, since the chain that is freed is the one just
made. So the roll-back is exact on a damaged table as well.

`alloc_cluster` searches from the beginning each time, and everything before the last
cluster it gave out is in use by then. That is why a chain ascends, and why the search
for the next one finds a cluster behind it.
-/

set_option autoImplicit false

namespace OsU

/-- The sectors `n` bytes take. -/
def sectorsFor (n : Nat) : Nat := (n + 511) / 512

/-- The `k`-th sector of the data, padded with zeros. -/
def chunk (data : List UInt8) (k : Nat) : Sector := fun i => data.getD (512 * k + i) 0

/-- The log entry of a data sector. -/
def dataWrite (c : Nat) : Writer × Nat := (.writeClusterChain, 4135 + c)

/-- The sector the loop assembles is the chunk of the data it is at. -/
theorem sectorOf_chunk {data : List UInt8} {k take : Nat}
    (ht : take = if data.length - 512 * k > 512 then 512 else data.length - 512 * k) :
    sectorOf (ByteMem.copy (ByteMem.fill (fun _ => 0) 0 512) 0
      (fun i => data.getD (512 * k + i) 0) take) 0 = chunk data k := by
  funext i
  have hi := i.isLt
  simp only [sectorOf, chunk, ByteMem.copy_apply, ByteMem.fill, Nat.mul_zero, Nat.zero_add,
    Nat.zero_le, true_and, Nat.sub_zero]
  split
  · rfl
  · rename_i h
    rw [List.getD_eq_getElem?_getD, List.getElem?_eq_none (by split at ht <;> omega)]
    rfl

/-! ## The partial chain

The invariant of the loop: the clusters taken so far are a chain with an end mark, were
free before, and carry the data written so far. A round adds one at its end, and giving
up frees them all, which puts the table back as it was. -/

/-- `l` is a chain of `fat`, made of clusters that were free in `fat₀`; off it, the two tables
agree. `first` and `prev` are the loop's variables: the ends of `l`, 0 when there is none. -/
structure Links (fat₀ : ByteMem) (l : List Nat) (first prev : Nat) (fat : ByteMem) : Prop where
  first_eq : first = l.headD 0
  prev_eq : prev = l.getLastD 0
  chain : l ≠ [] → FatChain (fatGet fat) first l
  off : ∀ c, c ∉ l → fatGet fat c = fatGet fat₀ c
  fresh : ∀ c ∈ l, InRange c ∧ fatGet fat₀ c = 0

/-- The table after a round: the new cluster is the end, and the last one links to it. -/
def linked (fat : ByteMem) (prev c : Nat) : ByteMem :=
  fatSet (if prev ≠ 0 then fatSet (fatSet fat c fat16Eoc) prev c else fatSet fat c fat16Eoc) c
    fat16Eoc

theorem linked_self (fat : ByteMem) (prev c : Nat) : fatGet (linked fat prev c) c = 0xFFFF := by
  simp [linked, fatGet_fatSet, fat16Eoc]

theorem linked_prev {fat : ByteMem} {prev c : Nat} (h : prev ≠ 0) (hpc : prev ≠ c)
    (hc : InRange c) : fatGet (linked fat prev c) prev = c := by
  have := inRange_iff.mp hc
  simp only [linked, fatGet_fatSet, if_neg hpc, if_pos h, if_true]
  omega

theorem linked_other {fat : ByteMem} {prev c x : Nat} (hxc : x ≠ c) (hxp : prev ≠ 0 → x ≠ prev) :
    fatGet (linked fat prev c) x = fatGet fat x := by
  simp only [linked, fatGet_fatSet, if_neg hxc]
  split
  · rename_i h
    rw [fatGet_fatSet, if_neg (hxp h), fatGet_fatSet, if_neg hxc]
  · rw [fatGet_fatSet, if_neg hxc]

namespace Links

variable {fat₀ fat : ByteMem} {l : List Nat} {first prev : Nat}

theorem nodup (h : Links fat₀ l first prev fat) : l.Nodup := by
  by_cases hl : l = []
  · simp [hl]
  · exact (h.chain hl).nodup

theorem first_ne_zero (h : Links fat₀ l first prev fat) : first ≠ 0 ↔ l ≠ [] := by
  cases l with
  | nil => simp [h.first_eq]
  | cons c l =>
    have hc := inRange_iff.mp (h.fresh c (by simp)).1
    simp only [h.first_eq, List.headD_cons, ne_eq, reduceCtorEq, not_false_eq_true, iff_true]
    omega

theorem prev_last (h : Links fat₀ l first prev fat) (hl : l ≠ []) :
    l.getLast? = some prev ∧ prev ≠ 0 := by
  have hp : prev = l.getLast hl := by
    rw [h.prev_eq, List.getLastD_eq_getLast?, List.getLast?_eq_getLast_of_ne_nil hl]
    rfl
  have hm := inRange_iff.mp (h.fresh _ (List.getLast_mem hl)).1
  exact ⟨by rw [List.getLast?_eq_getLast_of_ne_nil hl, hp], by rw [hp]; omega⟩

/-- Freeing the partial chain puts the table back. -/
theorem freeChain_eq (h : Links fat₀ l first prev fat) (hl : l ≠ []) :
    freeChain fat first = fat₀ := by
  refine fat_ext fun c => ?_
  by_cases hc : c ∈ l
  · rw [freeChain_of_onChain (((h.chain hl).mem_iff c).mp hc), (h.fresh c hc).2]
  · rw [freeChain_of_not_onChain (fun ho => hc (((h.chain hl).mem_iff c).mpr ho)), h.off c hc]

/-- With no free cluster left, the partial chain is everything that was free. -/
theorem card_free_le (h : Links fat₀ l first prev fat)
    (hfull : ∀ y, InRange y → fatGet fat y ≠ 0) :
    (freeClusters (fatGet fat₀)).card ≤ l.length := by
  have hsub : freeClusters (fatGet fat₀) ⊆ l.toFinset := by
    intro c hc
    rw [mem_freeClusters] at hc
    by_contra hcl
    rw [List.mem_toFinset] at hcl
    exact hfull c hc.1 (by rw [h.off c hcl, hc.2])
  exact (Finset.card_le_card hsub).trans (List.toFinset_card_le l)

theorem length_le_free (h : Links fat₀ l first prev fat) :
    l.length ≤ (freeClusters (fatGet fat₀)).card := by
  rw [← List.toFinset_card_of_nodup h.nodup]
  refine Finset.card_le_card fun c hc => ?_
  rw [List.mem_toFinset] at hc
  exact mem_freeClusters.mpr (h.fresh c hc)

theorem not_mem_of_free (h : Links fat₀ l first prev fat) {c : Nat} (hfree : fatGet fat c = 0) :
    c ∉ l := fun hm => (h.chain (List.ne_nil_of_mem hm)).fat_ne_zero c hm hfree

/-- A round adds a free cluster at the end of the partial chain. -/
theorem grow (h : Links fat₀ l first prev fat) {c : Nat} (hc : InRange c)
    (hfree : fatGet fat c = 0) :
    Links fat₀ (l ++ [c]) (if first = 0 then c else first) c (linked fat prev c) := by
  have hcl := h.not_mem_of_free hfree
  by_cases hl : l = []
  · -- The first cluster: nothing to link it to.
    subst hl
    have hf : first = 0 := h.first_eq
    have hp : prev = 0 := h.prev_eq
    rw [if_pos hf]
    refine ⟨rfl, rfl, fun _ => .last hc (by rw [linked_self]; omega), fun x hx => ?_, ?_⟩
    · simp only [List.nil_append, List.mem_singleton] at hx
      rw [linked_other hx fun hp' => absurd hp hp', h.off x (by simp)]
    · simp only [List.nil_append, List.mem_singleton, forall_eq]
      exact ⟨hc, by rw [← h.off c hcl, hfree]⟩
  · obtain ⟨hlast, hp⟩ := h.prev_last hl
    have hpl : prev ∈ l := List.mem_of_getLast? hlast
    have hpc : prev ≠ c := fun he => hcl (he ▸ hpl)
    have hhd : first = (l ++ [c]).headD 0 := by
      cases l with
      | nil => exact absurd rfl hl
      | cons a l => rw [h.first_eq]; rfl
    rw [if_neg (h.first_ne_zero.mpr hl)]
    refine ⟨hhd, by simp, fun _ => ?_, fun x hx => ?_, fun x hx => ?_⟩
    · refine (h.chain hl).snoc hlast hcl hc (linked_prev hp hpc hc) (by rw [linked_self]; omega) ?_
      intro x hx hxp
      exact linked_other (fun he => hcl (he ▸ hx)) fun _ => hxp
    · simp only [List.mem_append, List.mem_singleton, not_or] at hx
      rw [linked_other hx.2 fun _ he => hx.1 (he ▸ hpl), h.off x hx.1]
    · rcases List.mem_append.mp hx with hx | hx
      · exact h.fresh x hx
      · rw [List.mem_singleton.mp hx]
        exact ⟨hc, by rw [← h.off c hcl, hfree]⟩

end Links

/-- The partial chain ascends to its end mark, and what is still free lies behind it. -/
structure Ascends (fat : ByteMem) (l : List Nat) : Prop where
  sorted : l.Pairwise (· < ·)
  behind : ∀ x, InRange x → fatGet fat x = 0 → ∀ c ∈ l, c < x
  ends : ∀ c ∈ l.getLast?, fatGet fat c = 0xFFFF

theorem Ascends.nil (fat : ByteMem) : Ascends fat [] where
  sorted := .nil
  behind := fun _ _ _ _ hc => absurd hc List.not_mem_nil
  ends := fun _ hc => nomatch hc

/-- The first free cluster is behind the chain, and the others are behind it. -/
theorem Ascends.grow {fat₀ fat : ByteMem} {l : List Nat} {first prev : Nat} (h : Ascends fat l)
    (hl : Links fat₀ l first prev fat) {c : Nat} (hc : InRange c) (hfree : fatGet fat c = 0)
    (hmin : ∀ y, InRange y → y < c → fatGet fat y ≠ 0) :
    Ascends (linked fat prev c) (l ++ [c]) where
  sorted := by
    rw [List.pairwise_append]
    refine ⟨h.sorted, List.pairwise_singleton _ _, fun x hx y hy => ?_⟩
    rw [List.mem_singleton.mp hy]
    exact h.behind c hc hfree x hx
  behind := by
    intro x hx hx0 y hy
    -- A cluster that is free now is not the one just taken, nor the one before it, and
    -- was free before.
    have hxc : x ≠ c := by
      rintro rfl
      rw [linked_self] at hx0
      exact nomatch hx0
    have hxp : prev ≠ 0 → x ≠ prev := by
      rintro hp rfl
      have hne : l ≠ [] := by
        rintro rfl
        exact hp hl.prev_eq
      have hmem := List.mem_of_getLast? (hl.prev_last hne).1
      rw [linked_prev hp hxc hc] at hx0
      exact absurd (h.behind c hc hfree x hmem) (by omega)
    rw [linked_other hxc hxp] at hx0
    rcases List.mem_append.mp hy with hy | hy
    · exact h.behind x hx hx0 y hy
    · rw [List.mem_singleton.mp hy]
      have hge : ¬ x < c := fun hlt => hmin x hx hlt hx0
      omega
  ends := by
    intro x hx
    rw [List.getLast?_concat, Option.mem_some_iff] at hx
    rw [← hx]
    exact linked_self fat prev c

/-! ## The state of the loop -/

/-- After `l.length` rounds on `data`, started with the table `fat₀` and the device
`d₀`: the chain so far, what is written of the data, and the sectors that have it. -/
structure Partial (data : List UInt8) (fat₀ : ByteMem) (d₀ : Device) (l : List Nat)
    (first prev written : Nat) (fat : ByteMem) (d : Device) : Prop
    extends Links fat₀ l first prev fat where
  written_eq : written = if data.length ≤ 512 * l.length then data.length else 512 * l.length
  le_need : l.length ≤ sectorsFor data.length
  holds : ∀ k c, l[k]? = some c → d.sectors (4135 + c) = chunk data k
  wrote : Wrote d₀ d (l.map dataWrite)
  clock : d.clock = d₀.clock + l.length
  runs : d₀.Runs l.length

namespace Partial

variable {data : List UInt8} {fat₀ fat : ByteMem} {d₀ d : Device} {l : List Nat}
  {first prev written : Nat}

theorem start (data : List UInt8) (fat₀ : ByteMem) (d₀ : Device) :
    Partial data fat₀ d₀ [] 0 0 0 fat₀ d₀ where
  first_eq := rfl
  prev_eq := rfl
  written_eq := by
    split
    · simp only [List.length_nil] at *
      omega
    · rfl
  le_need := Nat.zero_le _
  chain := fun h => absurd rfl h
  off := fun _ _ => rfl
  fresh := by simp
  holds := by simp
  wrote := Wrote.refl d₀
  clock := rfl
  runs := fun k hk => absurd hk (by simp)

/-- While there is data left, the cursor is at a sector boundary. -/
theorem written_of_lt (h : Partial data fat₀ d₀ l first prev written fat d)
    (hw : written < data.length) : written = 512 * l.length := by
  have hwe := h.written_eq
  split at hwe
  · omega
  · exact hwe

theorem length_lt_need (h : Partial data fat₀ d₀ l first prev written fat d)
    (hw : written < data.length) : l.length < sectorsFor data.length := by
  have := h.written_of_lt hw
  rw [sectorsFor]
  omega

theorem length_eq_need (h : Partial data fat₀ d₀ l first prev written fat d)
    (hw : ¬ written < data.length) : l.length = sectorsFor data.length := by
  have hle := h.le_need
  have hwe := h.written_eq
  rw [sectorsFor] at hle ⊢
  split at hwe <;> omega

/-- A round that stores its sector adds a cluster to the partial chain. -/
theorem grow (h : Partial data fat₀ d₀ l first prev written fat d) (hw : written < data.length)
    {c take : Nat} (hc : InRange c) (hfree : fatGet fat c = 0) (hok : d.ok d.clock = true)
    (ht : take = if data.length - written > 512 then 512 else data.length - written) :
    Partial data fat₀ d₀ (l ++ [c]) (if first = 0 then c else first) c (written + take)
      (linked fat prev c)
      (Device.store { d with clock := d.clock + 1 } .writeClusterChain (4135 + c)
        (chunk data l.length)) := by
  have hwl := h.written_of_lt hw
  refine ⟨h.toLinks.grow hc hfree, ?_, ?_, fun k x hk => ?_, ?_, ?_, fun k hk => ?_⟩
  · rw [List.length_append, List.length_singleton, ht, hwl]
    split <;> split <;> omega
  · rw [List.length_append]
    exact h.length_lt_need hw
  · rw [store_sectors]
    rcases Nat.lt_trichotomy k l.length with hkl | rfl | hkl
    · rw [List.getElem?_append_left hkl] at hk
      have hxc : x ≠ c := fun he => h.not_mem_of_free hfree (he ▸ List.mem_of_getElem? hk)
      rw [if_neg (by omega)]
      exact h.holds k x hk
    · simp only [List.getElem?_append_right (Nat.le_refl _), Nat.sub_self,
        List.getElem?_cons_zero, Option.some.injEq] at hk
      rw [← hk, if_pos rfl]
    · rw [List.getElem?_eq_none (by simp; omega)] at hk
      exact absurd hk (by simp)
  · rw [List.map_append]
    exact h.wrote.trans (Wrote.store _)
  · rw [store_clock, List.length_append, List.length_singleton, h.clock, Nat.add_assoc]
  · rw [List.length_append, List.length_singleton] at hk
    rcases Nat.lt_succ_iff_lt_or_eq.mp hk with hk | rfl
    · exact h.runs k hk
    · rw [← h.clock, ← h.wrote.ok]
      exact hok

end Partial

/-! ## The two outcomes -/

/-- The call gave up: the table is back, and the sectors it stored are of free clusters.
It does so only where the free clusters do not suffice or the device fails at one of its
polls. -/
structure ChainRefused (data : List UInt8) (s : Fs) (s' : Fs) : Prop where
  state : ∃ d', s' = { s with dev := d' }
  wrote : ∃ l : List Nat, Wrote s.dev s'.dev (l.map dataWrite) ∧
    ∀ c ∈ l, InRange c ∧ fatGet s.fatBuf c = 0
  why : ¬ (sectorsFor data.length ≤ (freeClusters (fatGet s.fatBuf)).card ∧
    s.dev.Runs (sectorsFor data.length))

/-- The call stored the data on the chain `l`: the clusters were free, they are linked
in their order and hold the data padded with zeros, and nothing else of the table or of
the disk has changed. -/
structure ChainStored (data : List UInt8) (s : Fs) (l : List Nat) (s' : Fs) : Prop where
  state : ∃ fat' d', s' = { s with fatBuf := fat', dev := d' }
  length : l.length = sectorsFor data.length
  chain : l ≠ [] → FatChain (fatGet s'.fatBuf) (l.headD 0) l
  nodup : l.Nodup
  off : ∀ c, c ∉ l → fatGet s'.fatBuf c = fatGet s.fatBuf c
  fresh : ∀ c ∈ l, InRange c ∧ fatGet s.fatBuf c = 0
  holds : ∀ k c, l[k]? = some c → s'.dev.sectors (4135 + c) = chunk data k
  wrote : Wrote s.dev s'.dev (l.map dataWrite)
  clock : s'.dev.clock = s.dev.clock + l.length
  room : l.length ≤ (freeClusters (fatGet s.fatBuf)).card
  runs : s.dev.Runs l.length

theorem Partial.stored {data : List UInt8} {s : Fs} {l : List Nat} {first prev written : Nat}
    {fat : ByteMem} {d : Device}
    (h : Partial data s.fatBuf s.dev l first prev written fat d) (hw : ¬ written < data.length) :
    ChainStored data s l { s with fatBuf := fat, dev := d } where
  state := ⟨fat, d, rfl⟩
  length := h.length_eq_need hw
  chain := fun hl => h.first_eq ▸ h.chain hl
  nodup := h.nodup
  off := h.off
  fresh := h.fresh
  holds := h.holds
  wrote := h.wrote
  clock := h.clock
  room := h.length_le_free
  runs := h.runs

/-- Giving up with the partial chain `l` stored, and the table put back. -/
theorem Partial.refused {data : List UInt8} {s : Fs} {l : List Nat} {first prev written : Nat}
    {fat : ByteMem} {d : Device}
    (h : Partial data s.fatBuf s.dev l first prev written fat d) {fat' : ByteMem} {c : Nat}
    (hfat : fat' = s.fatBuf)
    (why : ¬ (sectorsFor data.length ≤ (freeClusters (fatGet s.fatBuf)).card ∧
      s.dev.Runs (sectorsFor data.length))) :
    ChainRefused data s { s with fatBuf := fat', dev := { d with clock := c } } where
  state := ⟨_, by rw [hfat]⟩
  wrote := ⟨l, by simpa using h.wrote.trans (Wrote.tick d c), h.fresh⟩
  why := why

theorem writeLoop_cases {data : List UInt8} {s : Fs} (n : Nat) {l : List Nat}
    {first prev written : Nat} {fat : ByteMem} {d : Device}
    (h : Partial data s.fatBuf s.dev l first prev written fat d) (ha : Ascends fat l)
    (hn : data.length - written ≤ n) :
    (∃ s', writeLoop data n first prev written { s with fatBuf := fat, dev := d } = (none, s') ∧
      ChainRefused data s s') ∨
    ∃ l' s', writeLoop data n first prev written { s with fatBuf := fat, dev := d } =
      (some (l'.headD 0), s') ∧ ChainStored data s l' s' ∧ Ascends s'.fatBuf l' := by
  induction n generalizing l first prev written fat d with
  | zero => exact Or.inr ⟨l, _, by rw [writeLoop, h.first_eq], h.stored (by omega), ha⟩
  | succ n ih =>
    by_cases hw : written < data.length
    · have hneed := h.length_lt_need hw
      rcases allocCluster_cases fat with ⟨c, hc, hfree, hmin, halloc⟩ | ⟨hfull, halloc⟩
      · have hc2 := inRange_iff.mp hc
        have hc0 : c ≠ 0 := by omega
        have hsec := @sectorOf_chunk data l.length _ rfl
        rw [← h.written_of_lt hw] at hsec
        simp only [writeLoop, if_pos hw, halloc, if_neg hc0, diskWriteSectors_one,
          clusterLba_mod (show c < 65536 by omega)]
        rw [← linked, hsec]
        by_cases hok : d.ok d.clock = true
        · simp only [if_pos hok, ne_eq, not_true_eq_false, if_false]
          refine ih (h.grow hw hc hfree hok rfl) (ha.grow h.toLinks hc hfree hmin) ?_
          split <;> omega
        · -- The sector was not stored: the partial chain, the new cluster included, is freed.
          left
          have hback := (h.toLinks.grow hc hfree).freeChain_eq (by simp)
          simp only [hok, Bool.false_eq_true, if_false]
          refine ⟨_, if_pos (by decide), h.refused hback fun hr => hok ?_⟩
          rw [h.clock, h.wrote.ok]
          exact hr.2 _ hneed
      · left
        simp only [writeLoop, if_pos hw, halloc, if_true]
        refine ⟨_, rfl, h.refused (c := d.clock) ?_ fun hr => ?_⟩
        · split
          · rename_i hf
            exact h.freeChain_eq (h.first_ne_zero.mp hf)
          · rename_i hf
            have hl : l = [] := by
              by_contra hl
              exact hf (h.first_ne_zero.mpr hl)
            exact fat_ext fun c => h.off c (by simp [hl])
        · have := h.card_free_le hfull
          omega
    · exact Or.inr ⟨l, _, by rw [writeLoop, if_neg hw, h.first_eq], h.stored hw, ha⟩

/-- **All or nothing.** The call refuses and puts the table back, or stores the data on a chain
of fresh clusters. -/
theorem writeClusterChain_ascends (data : List UInt8) (s : Fs) :
    (∃ s', writeClusterChain data s = (none, s') ∧ ChainRefused data s s') ∨
    ∃ l s', writeClusterChain data s = (some (l.headD 0), s') ∧ ChainStored data s l s' ∧
      Ascends s'.fatBuf l := by
  have hp := Partial.start data s.fatBuf s.dev
  by_cases hd : data.length = 0
  · exact Or.inr ⟨[], s, by rw [writeClusterChain, if_pos hd]; rfl, hp.stored (by omega), .nil _⟩
  · rw [writeClusterChain, if_neg hd]
    exact writeLoop_cases data.length hp (.nil _) (by omega)

theorem writeClusterChain_cases (data : List UInt8) (s : Fs) :
    (∃ s', writeClusterChain data s = (none, s') ∧ ChainRefused data s s') ∨
    ∃ l s', writeClusterChain data s = (some (l.headD 0), s') ∧ ChainStored data s l s' :=
  (writeClusterChain_ascends data s).imp_right fun ⟨l, s', he, hs, _⟩ => ⟨l, s', he, hs⟩

/-- The call succeeds exactly when there is room and the device stores the sectors. -/
theorem writeClusterChain_isSome (data : List UInt8) (s : Fs) :
    (writeClusterChain data s).1.isSome ↔
      sectorsFor data.length ≤ (freeClusters (fatGet s.fatBuf)).card ∧
        s.dev.Runs (sectorsFor data.length) := by
  rcases writeClusterChain_cases data s with ⟨s', he, h⟩ | ⟨l, s', he, h⟩
  · rw [he]
    simpa using h.why
  · rw [he, ← h.length]
    simpa using ⟨h.room, h.runs⟩

/-! ## What the caller sees -/

/-- The data is on the clusters `l`, which were free and are one chain in ascending order. -/
structure AllocatedChain (data : List UInt8) (first : Nat) (l : List Nat) (s s' : Fs) : Prop where
  length : l.length = sectorsFor data.length
  first : l.head? = some first
  ascending : l.Pairwise (· < ·)
  changed : ∀ c, fatGet s'.fatBuf c ≠ fatGet s.fatBuf c ↔ c ∈ l
  fresh : ∀ c ∈ l, 2 ≤ c ∧ c ≤ 8152 ∧ fatGet s.fatBuf c = 0
  links : ∀ k c c', l[k]? = some c → l[k + 1]? = some c' → fatGet s'.fatBuf c = c'
  ends : ∀ c ∈ l.getLast?, fatGet s'.fatBuf c = 0xFFFF
  stored : ∀ k c, l[k]? = some c → s'.dev.sectors (clusterLba c) = chunk data k

theorem ChainStored.allocated {data : List UInt8} {s s' : Fs} {l : List Nat}
    (h : ChainStored data s l s') (ha : Ascends s'.fatBuf l) (hl : l ≠ []) :
    AllocatedChain data (l.headD 0) l s s' where
  length := h.length
  first := by
    cases l with
    | nil => exact absurd rfl hl
    | cons c l => rfl
  ascending := ha.sorted
  changed := by
    intro c
    constructor
    · intro hne
      by_contra hc
      exact hne (h.off c hc)
    · intro hc
      rw [(h.fresh c hc).2]
      exact (h.chain hl).fat_ne_zero c hc
  fresh := fun c hc => ⟨(inRange_iff.mp (h.fresh c hc).1).1, by
    have hin := inRange_iff.mp (h.fresh c hc).1
    omega, (h.fresh c hc).2⟩
  links := fun k c c' hc hc' => (h.chain hl).next hc hc'
  ends := ha.ends
  stored := by
    intro k c hc
    have hin := inRange_iff.mp (h.fresh c (List.mem_of_getElem? hc)).1
    rw [clusterLba_eq (by omega)]
    exact h.holds k c hc

/-- **All or nothing.** An error leaves the table as it was; a success has taken one
cluster for every 512 bytes that were begun, and has the data on them. For every table,
every length and every device, failing ones included. -/
theorem write_cluster_chain_outcome (data : List UInt8) (s : Fs) :
    ((writeClusterChain data s).1 = none → (writeClusterChain data s).2.fatBuf = s.fatBuf) ∧
      ∀ first, (writeClusterChain data s).1 = some first → 0 < data.length →
        ∃ l, AllocatedChain data first l s (writeClusterChain data s).2 := by
  rcases writeClusterChain_ascends data s with ⟨s', he, h⟩ | ⟨l, s', he, h, ha⟩
  · obtain ⟨d', hs'⟩ := h.state
    rw [he, hs']
    exact ⟨fun _ => rfl, fun first hfirst => nomatch hfirst⟩
  · rw [he]
    refine ⟨nofun, fun first hfirst hpos => ⟨l, ?_⟩⟩
    obtain rfl := Option.some.inj hfirst
    refine h.allocated ha (List.ne_nil_of_length_pos ?_)
    rw [h.length, sectorsFor]
    omega

/-- A table with cluster 3 in use, and a device that answers poll `n` with `ok n`. -/
def gappedFs (ok : Nat → Bool) : Fs :=
  { Fs.boot ⟨fun _ _ => 0, ok, 0, []⟩ with fatBuf := fun i => if i = 6 then 0xFF else 0 }

/-- Two sectors of data go to clusters 2 and 4; if the second is not stored, neither is taken. -/
theorem write_cluster_chain_outcome_gapped :
    let data := List.replicate 600 0x61
    let s := gappedFs fun _ => true
    let failing := gappedFs fun n => n != 1
    (∃ l, AllocatedChain data 2 l s (writeClusterChain data s).2) ∧
    fatGet (writeClusterChain data s).2.fatBuf 2 = 4 ∧
    (writeClusterChain data failing).2.dev.clock = 2 ∧
    (writeClusterChain data failing).2.fatBuf = failing.fatBuf := by
  intro data s failing
  obtain ⟨-, hstored⟩ := write_cluster_chain_outcome data s
  obtain ⟨hrefused, -⟩ := write_cluster_chain_outcome data failing
  have hfirst : (writeClusterChain data s).1 = some 2 := by decide +kernel
  have hnone : (writeClusterChain data failing).1 = none := by decide +kernel
  have hlen : 0 < data.length := Nat.lt_of_lt_of_eq (by decide) List.length_replicate.symm
  exact ⟨hstored 2 hfirst hlen, by decide +kernel, by decide +kernel, hrefused hnone⟩

end OsU
