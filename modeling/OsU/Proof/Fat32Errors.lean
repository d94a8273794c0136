import OsU.Lib.Rounds
import OsU.Proof.Fat32File

/-!
# What the FAT32 driver takes for a cluster

A failed read of the table gives `FAT32_BAD`, and that value and the two below the first cluster are
below the end mark, so the loops go on with any of them as if it were a cluster. The chain is
followed here by itself, as long as the device lets it be (`FileVisits`, `FindVisits`), and the
loops come to every value of it.

`fat32_init` takes any byte for the number of sectors of a cluster, and `cluster_buffer` has room for
8. The lemmas about the rounds of a loop hold of the driver as it is modelled, for any number
(`Opened`); the results are said of volumes whose clusters fit (`Buffered`). On others the first
cluster that is read runs over the buffers and over `fs`, and what the calls do from there on is
not what these definitions do.
-/

set_option autoImplicit false

namespace OsU

open Rounds

/-- No cluster: a free entry, a reserved one, or a bad one. -/
def NoCluster (v : UInt32) : Prop := v = fat32Free ∨ v = 1 ∨ v = fat32Bad

/-- The loops take it for a cluster. -/
theorem noCluster_lt {v : UInt32} (h : NoCluster v) : v < fat32Eoc := by
  rcases h with rfl | rfl | rfl <;> decide

/-- A driver that has accepted a volume. -/
structure Opened (s : Fat32) : Prop where
  valid : s.valid = true
  small : s.sectorsPerCluster.toNat < 256

theorem init_opened {s : Fat32} {lba : UInt32} (h : (s.init lba).1 = 0) :
    Opened (s.init lba).2 := by
  obtain ⟨bpb, -, hinit⟩ := init_ok h
  rw [hinit]
  refine ⟨rfl, ?_⟩
  show (bpb 13).toUInt32.toNat < 256
  rw [UInt8.toNat_toUInt32]
  exact (bpb 13).toNat_lt

/-- A cluster fits into `cluster_buffer`. -/
def Narrow (s : Fat32) : Prop := s.sectorsPerCluster.toNat ≤ 8

instance (s : Fat32) : Decidable (Narrow s) := inferInstanceAs (Decidable (_ ≤ _))

/-- A driver that has accepted a volume and has room for its clusters. `fat32_init` promises the
first half only. -/
structure Buffered (s : Fat32) : Prop extends Opened s where
  narrow : Narrow s

/-! ## The driver at a later time -/

/-- The number of entries that are looked at in a cluster. -/
def entriesPerCluster (s : Fat32) : Nat := (s.sectorsPerCluster * 512 / 32).toNat

/-- The driver some reads later, when so many polls have been made. Of the device only
the clock has moved; the two buffers may hold anything. -/
structure Later (s : Fat32) (clock : Nat) (d : Fat32) : Prop where
  fat : d.fatStartLba = s.fatStartLba
  data : d.clusterStartLba = s.clusterStartLba
  spc : d.sectorsPerCluster = s.sectorsPerCluster
  sectors : d.dev.sectors = s.dev.sectors
  ok : d.dev.ok = s.dev.ok
  clock : d.dev.clock = clock
  events : s.events <+: d.events

/-- The sectors of a cluster can be read, from a poll on. -/
def ClusterOk (s : Fat32) (clock : Nat) : Prop := ∀ k < s.count, s.dev.ok (clock + k) = true

namespace Later

variable {s d : Fat32} {clock : Nat}

theorem refl (s : Fat32) : Later s s.dev.clock s :=
  ⟨rfl, rfl, rfl, rfl, rfl, rfl, List.prefix_refl _⟩

variable (h : Later s clock d)

include h

theorem count : d.count = s.count := by rw [Fat32.count, Fat32.count, h.spc]

theorem entryAt (v : UInt32) : d.entryAt v = s.entryAt v := by
  rw [Fat32.entryAt, Fat32.entryAt, Fat32.fatSector, Fat32.fatSector, h.fat, h.sectors]

theorem clusterAt (v : UInt32) : d.clusterAt v = s.clusterAt v := by
  funext i
  rw [Fat32.clusterAt, Fat32.clusterAt, Fat32.clusterToLba, Fat32.clusterToLba, h.data, h.spc,
    h.sectors]

theorem roundSize (maxSize done : UInt32) :
    roundSize d maxSize done = roundSize s maxSize done := by
  rw [OsU.roundSize, OsU.roundSize, h.spc]

theorem entriesPerCluster : entriesPerCluster d = entriesPerCluster s := by
  rw [OsU.entriesPerCluster, OsU.entriesPerCluster, h.spc]

theorem entryRead (v : UInt32) (value : Option UInt32) (buf : ByteMem) :
    Later s (clock + 1) (d.entryRead v value buf) :=
  ⟨h.fat, h.data, h.spc, h.sectors, h.ok, congrArg (· + 1) h.clock,
    h.events.trans (List.prefix_append _ _)⟩

theorem clusterRead (v : UInt32) (buf : ByteMem) (n : Nat) :
    Later s n (d.clusterRead v buf n) :=
  ⟨h.fat, h.data, h.spc, h.sectors, h.ok, rfl, h.events.trans (List.prefix_append _ _)⟩

/-- A cluster that can be read then is read. -/
theorem readCluster (v : UInt32) (hc : ClusterOk s clock) :
    ∃ buf, d.readCluster v = (0, d.clusterRead v buf (clock + s.count)) ∧
      ∀ i < 512 * s.count, buf i = s.clusterAt v i := by
  have hruns : d.dev.Runs d.count := fun k hk => by
    rw [h.ok, h.clock]
    exact hc k (h.count ▸ hk)
  obtain ⟨buf, hread, hbuf⟩ := Fat32.readCluster_ok v hruns
  rw [h.clock, h.count] at hread
  rw [h.count, h.clusterAt] at hbuf
  exact ⟨buf, hread, hbuf⟩

/-- So is an entry. -/
theorem fatReadEntry (v : UInt32) (hok : s.dev.ok clock = true) :
    ∃ buf, d.fatReadEntry v = (s.entryAt v, d.entryRead v (some (s.entryAt v)) buf) := by
  have hnow : d.dev.ok d.dev.clock = true := by rwa [h.ok, h.clock]
  obtain ⟨buf, hread⟩ := Fat32.fatReadEntry_ok v hnow
  rw [h.entryAt] at hread
  exact ⟨buf, hread⟩

theorem fatReadEntry_failed (v : UInt32) (hok : s.dev.ok clock = false) :
    d.fatReadEntry v = (fat32Bad, d.entryRead v none d.sectorBuffer) := by
  have hnow : d.dev.ok d.dev.clock = false := by rwa [h.ok, h.clock]
  exact Fat32.fatReadEntry_failed v hnow

end Later

/-- Since `s`, no sector was asked for with a value that is no cluster. -/
def Clean (s d : Fat32) : Prop :=
  ∃ new, d.events = s.events ++ new ∧
    ∀ v count, FatRead.cluster v count ∈ new → NoCluster v → count = 0

theorem Clean.refl (s : Fat32) : Clean s s :=
  ⟨[], (List.append_nil _).symm, fun _ _ h => absurd h List.not_mem_nil⟩

theorem Clean.append {s d d' : Fat32} {more : List FatRead} (h : Clean s d)
    (hmore : d'.events = d.events ++ more)
    (hclean : ∀ v count, FatRead.cluster v count ∈ more → NoCluster v → count = 0) :
    Clean s d' := by
  obtain ⟨new, hnew, hold⟩ := h
  refine ⟨new ++ more, by rw [hmore, hnew, List.append_assoc], fun v count hmem hv => ?_⟩
  rcases List.mem_append.mp hmem with hmem | hmem
  · exact hold v count hmem hv
  · exact hclean v count hmem hv

/-- The call returned -1, and asked for no such sector. `Clean` is about the reads of
this call only: the events before it are left out. -/
def Reported (s : Fat32) (result : Option Int × ByteMem × Fat32) : Prop :=
  result.1 = some (-1) ∧ Clean s result.2.2

/-- A value that is no cluster has been used as one. -/
theorem not_clean {s d d' : Fat32} {v : UInt32} {count : Nat} (h : s.events <+: d.events)
    (hask : d.events ++ [.cluster v count] <+: d'.events) (hv : NoCluster v) (hcount : count ≠ 0) :
    ¬ Clean s d' := by
  rintro ⟨new, hnew, hclean⟩
  obtain ⟨old, hold⟩ := h
  rw [hnew, ← hold, List.append_assoc, List.prefix_append_right_inj] at hask
  exact hcount (hclean v count (hask.subset (by simp)) hv)

/-! ## What a loop asks for -/

section Asking

variable {σ ρ : Type} {round : σ → ρ ⊕ σ} {driver : σ → Fat32} {result : ρ → Fat32}

/-- A round asks for some reads first. -/
def Asks (round : σ → ρ ⊕ σ) (driver : σ → Fat32) (result : ρ → Fat32) (x : σ)
    (first : List FatRead) : Prop :=
  (∀ r, round x = .inl r → (driver x).events ++ first <+: (result r).events) ∧
    ∀ x', round x = .inr x' → (driver x).events ++ first <+: (driver x').events

/-- So does a loop that begins with it. -/
theorem loop_asks (hall : ∀ x, Asks round driver result x []) {x : σ} {first : List FatRead}
    (hfirst : Asks round driver result x first) {n : Nat} {r : ρ}
    (hl : loop round n x = some r) : (driver x).events ++ first <+: (result r).events := by
  have hkeep : ∀ x' r, (driver x).events ++ first <+: (driver x').events → ∀ n,
      loop round n x' = some r → (driver x).events ++ first <+: (result r).events := by
    intro x' r hpre n hl'
    refine loop_invariant (P := fun y => (driver x).events ++ first <+: (driver y).events)
      (Q := fun r => (driver x).events ++ first <+: (result r).events)
      (fun y y' hy hr => hy.trans ?_) (fun y r hy hr => hy.trans ?_) hpre hl'
    · exact (List.prefix_append _ _).trans ((hall y).2 y' hr)
    · exact (List.prefix_append _ _).trans ((hall y).1 r hr)
  cases n with
  | zero => exact nomatch hl
  | succ n =>
    cases hr : round x with
    | inl r' =>
      rw [loop_inl hr] at hl
      exact Option.some.inj hl ▸ hfirst.1 r' hr
    | inr x' => exact hkeep x' r (hfirst.2 x' hr) n ((loop_inr hr n).symm.trans hl)

end Asking

/-! ## The chain of a file

The values of the chain are known before the call is made: they are read off the table,
and the polls are counted along. The loop is its rounds (`OsU/Lib/Rounds.lean`), so it
comes to every value of the chain up to its end; what it does there is said of the
round. -/

/-- The chain comes to a value, with so many bytes copied and so many polls made. Like
`FindVisits` it is said of the state before the call alone. -/
inductive FileVisits (s : Fat32) (first maxSize : UInt32) : UInt32 → UInt32 → Nat → Prop where
  | start : FileVisits s first maxSize first 0 s.dev.clock
  | next {v done : UInt32} {clock : Nat} (h : FileVisits s first maxSize v done clock)
      (hv : v < fat32Eoc) (hroom : done < maxSize) (hcluster : ClusterOk s clock)
      (hentry : s.dev.ok (clock + s.count) = true) :
      FileVisits s first maxSize (s.entryAt v) (done + roundSize s maxSize done)
        (clock + s.count + 1)

/-- It comes to a value that is no cluster, or the table cannot be read. The reads
before it succeed, so that the loop gets there. -/
inductive FileTrouble (s : Fat32) (first maxSize : UInt32) : Prop where
  | value {v done : UInt32} {clock : Nat} (h : FileVisits s first maxSize v done clock)
      (hroom : done < maxSize) (hv : NoCluster v)
  | table {v done : UInt32} {clock : Nat} (h : FileVisits s first maxSize v done clock)
      (hv : v < fat32Eoc) (hroom : done < maxSize) (hcluster : ClusterOk s clock)
      (hentry : s.dev.ok (clock + s.count) = false)

/-- The state at the head of the loop. -/
structure FileHead where
  current : UInt32
  done : UInt32
  buffer : ByteMem
  driver : Fat32

/-- A round of `fat32_read_file`: on the left what it returns, on the right the next
head of its loop. So the loop is one round iterated, and a loop that never returns is a
round that never gives a left. -/
def fileRound (maxSize : UInt32) (h : FileHead) : (Int × ByteMem × Fat32) ⊕ FileHead :=
  if h.current < fat32Eoc ∧ h.done < maxSize then
    let r := h.driver.readCluster h.current
    if r.1 ≠ 0 then .inl (-1, h.buffer, r.2)
    else
      let toCopy := roundSize h.driver maxSize h.done
      let e := r.2.fatReadEntry h.current
      .inr
        { current := e.1
          done := h.done + toCopy
          buffer := h.buffer.copy h.done.toNat r.2.clusterBuffer toCopy.toNat
          driver := e.2 }
  else .inl (h.done.toInt32.toInt, h.buffer, h.driver)

/-- The loop is its rounds. -/
theorem readFileLoop_eq_some {maxSize : UInt32} {n : Nat} {h : FileHead} {r : Int}
    {buffer : ByteMem} {s : Fat32} :
    Fat32.readFileLoop maxSize n h.current h.done h.buffer h.driver = (some r, buffer, s) ↔
      loop (fileRound maxSize) n h = some (r, buffer, s) := by
  induction n generalizing h with
  | zero => simp [Fat32.readFileLoop, loop]
  | succ n ih =>
    rw [Fat32.readFileLoop, loop, fileRound]
    split
    · dsimp only
      split
      · simp
      · exact ih (h := ⟨_, h.done + roundSize h.driver maxSize h.done, _, _⟩)
    · simp

section File

variable {s : Fat32} {first maxSize : UInt32}

/-- The loop comes to every value of the chain. -/
theorem FileVisits.leads {v done : UInt32} {clock : Nat}
    (h : FileVisits s first maxSize v done clock) (buffer : ByteMem) :
    ∃ buffer' d, Later s clock d ∧
      Leads (fileRound maxSize) ⟨first, 0, buffer, s⟩ ⟨v, done, buffer', d⟩ := by
  induction h with
  | start => exact ⟨buffer, s, Later.refl s, .refl⟩
  | @next v done clock _ hv hroom hcluster hentry ih =>
    obtain ⟨buffer', d, hd, hleads⟩ := ih
    obtain ⟨buf, hread, -⟩ := hd.readCluster v hcluster
    have hd' := hd.clusterRead v buf (clock + s.count)
    obtain ⟨buf', hnext⟩ := hd'.fatReadEntry v hentry
    refine ⟨buffer'.copy done.toNat buf (roundSize s maxSize done).toNat, _,
      hd'.entryRead v (some (s.entryAt v)) buf', hleads.tail ?_⟩
    rw [fileRound, if_pos ⟨hv, hroom⟩, hread]
    simp only [ne_eq, not_true_eq_false, if_false]
    rw [hnext, hd.roundSize]
    rfl

/-- When the table cannot be read, it comes to the error value. -/
theorem FileVisits.leads_bad {v done : UInt32} {clock : Nat}
    (h : FileVisits s first maxSize v done clock) (hv : v < fat32Eoc) (hroom : done < maxSize)
    (hcluster : ClusterOk s clock) (hentry : s.dev.ok (clock + s.count) = false)
    (buffer : ByteMem) :
    ∃ buffer' d, Later s (clock + s.count + 1) d ∧
      Leads (fileRound maxSize) ⟨first, 0, buffer, s⟩
        ⟨fat32Bad, done + roundSize s maxSize done, buffer', d⟩ := by
  obtain ⟨buffer', d, hd, hleads⟩ := h.leads buffer
  obtain ⟨buf, hread, -⟩ := hd.readCluster v hcluster
  have hd' := hd.clusterRead v buf (clock + s.count)
  have hbad := hd'.fatReadEntry_failed v hentry
  refine ⟨buffer'.copy done.toNat buf (roundSize s maxSize done).toNat, _,
    hd'.entryRead v none (d.clusterRead v buf (clock + s.count)).sectorBuffer, hleads.tail ?_⟩
  rw [fileRound, if_pos ⟨hv, hroom⟩, hread]
  simp only [ne_eq, not_true_eq_false, if_false]
  rw [hbad, hd.roundSize]
  rfl

/-- A round that is not the last asks for the cluster first. -/
theorem fileRound_asks {h : FileHead} (hv : h.current < fat32Eoc) (hroom : h.done < maxSize) :
    Asks (fileRound maxSize) FileHead.driver (fun r => r.2.2) h
      [.cluster h.current h.driver.count] := by
  have hcluster : (h.driver.readCluster h.current).2.events =
      h.driver.events ++ [.cluster h.current h.driver.count] := rfl
  obtain ⟨value, hentry⟩ := Fat32.fatReadEntry_events h.current (h.driver.readCluster h.current).2
  constructor
  · intro r hr
    rw [fileRound, if_pos ⟨hv, hroom⟩] at hr
    dsimp only at hr
    split at hr
    · obtain rfl := Sum.inl.inj hr
      exact List.prefix_rfl
    · exact nomatch hr
  · intro h' hr
    rw [fileRound, if_pos ⟨hv, hroom⟩] at hr
    dsimp only at hr
    split at hr
    · exact nomatch hr
    · obtain rfl := Sum.inr.inj hr
      rw [hentry, hcluster]
      exact List.prefix_append _ _

theorem fileRound_asks_nil (h : FileHead) :
    Asks (fileRound maxSize) FileHead.driver (fun r => r.2.2) h [] := by
  by_cases hgo : h.current < fat32Eoc ∧ h.done < maxSize
  · have hasks := fileRound_asks hgo.1 hgo.2
    rw [Asks, List.append_nil]
    exact ⟨fun r hr => (List.prefix_append _ _).trans (hasks.1 r hr),
      fun h' hr => (List.prefix_append _ _).trans (hasks.2 h' hr)⟩
  · rw [Asks, List.append_nil, fileRound, if_neg hgo]
    exact ⟨fun r hr => by rw [← Sum.inl.inj hr], fun h' hr => nomatch hr⟩

/-- A count is a whole number of sectors, until there is no room left. -/
def Whole (maxSize done : UInt32) : Prop :=
  512 ∣ done.toNat ∨ (done = maxSize ∧ maxSize.toNat ≠ 2 ^ 32 - 1)

theorem Whole.round {done : UInt32} (h : Whole maxSize done) (hroom : done < maxSize) (s : Fat32) :
    Whole maxSize (done + roundSize s maxSize done) := by
  have hdvd : 512 ∣ done.toNat :=
    h.resolve_right fun hfull => UInt32.lt_irrefl maxSize (hfull.1 ▸ hroom)
  have hsum : 512 ∣ (done + s.sectorsPerCluster * 512).toNat := by
    rw [UInt32.toNat_add, UInt32.toNat_mul, show (512 : UInt32).toNat = 512 from rfl]
    omega
  rw [roundSize]
  split
  · rename_i hover
    refine .inr ⟨?_, ?_⟩
    · rw [UInt32.add_comm, UInt32.sub_add_cancel]
    · have hlt := (done + s.sectorsPerCluster * 512).toNat_lt
      rw [gt_iff_lt, UInt32.lt_iff_toNat_lt] at hover
      omega
  · exact .inl hsum

/-- So it is never the error value. -/
theorem Whole.ne {done : UInt32} (h : Whole maxSize done) : done.toInt32.toInt ≠ -1 := by
  have hne : done.toNat ≠ 2 ^ 32 - 1 := by
    rcases h with hdvd | ⟨rfl, hmax⟩
    · omega
    · exact hmax
  have hlt := done.toNat_lt
  have hcond : done.toBitVec.toInt =
      if 2 * done.toNat < 2 ^ 32 then (done.toNat : Int) else done.toNat - (2 ^ 32 : Nat) :=
    BitVec.toInt_eq_toNat_cond _
  rw [← Int32.toInt_toBitVec, UInt32.toBitVec_toInt32, hcond]
  split <;> omega

theorem FileVisits.whole {v done : UInt32} {clock : Nat}
    (h : FileVisits s first maxSize v done clock) : Whole maxSize done := by
  induction h with
  | start => exact .inl (dvd_zero 512)
  | next _ _ hroom _ _ ih => exact ih.round hroom s

/-- Without sectors no read of a cluster fails, and the call does not return -1. -/
theorem fileLoop_no_sectors {h : FileHead} (hc : h.driver.count = 0) (hw : Whole maxSize h.done)
    {n : Nat} {r : Int × ByteMem × Fat32} (hl : loop (fileRound maxSize) n h = some r) :
    r.1 ≠ -1 := by
  refine loop_invariant (P := fun h => h.driver.count = 0 ∧ Whole maxSize h.done)
    (Q := fun r => r.1 ≠ -1) ?_ ?_ ⟨hc, hw⟩ hl
  · rintro h h' ⟨hc, hw⟩ hr
    rw [fileRound] at hr
    split at hr
    · rename_i hgo
      dsimp only at hr
      split at hr
      · cases hr
      · obtain rfl := Sum.inr.inj hr
        refine ⟨?_, hw.round hgo.2 _⟩
        rw [Fat32.count, Fat32.fatReadEntry_spc]
        exact hc
    · cases hr
  · rintro h r ⟨hc, hw⟩ hr
    rw [fileRound] at hr
    split at hr
    · obtain ⟨buf, hread, -⟩ := Fat32.readCluster_ok h.current
        (show h.driver.dev.Runs h.driver.count by
          rw [hc]
          exact fun k hk => absurd hk (Nat.not_lt_zero k))
      rw [hread] at hr
      cases hr
    · rw [← Sum.inl.inj hr]
      exact hw.ne

/-- **A file in trouble is never reported.** -/
theorem FileTrouble.unreported (hs : Opened s) (ht : FileTrouble s first maxSize) (n : Nat)
    (buffer : ByteMem) : ¬ Reported s (s.readFile n first buffer maxSize) := by
  rintro ⟨hres, hclean⟩
  rw [Fat32.readFile, if_neg (by simp [hs.valid])] at hres hclean
  generalize hrun : Fat32.readFileLoop maxSize n first 0 buffer s = result at hres hclean
  obtain ⟨r, buffer', d'⟩ := result
  obtain rfl : r = some (-1) := hres
  have hloop : loop (fileRound maxSize) n ⟨first, 0, buffer, s⟩ = some (-1, buffer', d') :=
    readFileLoop_eq_some.mp hrun
  by_cases hc : s.count = 0
  · exact fileLoop_no_sectors (h := ⟨first, 0, buffer, s⟩) hc (.inl (dvd_zero 512)) hloop rfl
  · cases ht with
    | @value v done clock hvis hroom hv =>
      obtain ⟨buf, d, hd, hleads⟩ := hvis.leads buffer
      obtain ⟨m, hm⟩ := loop_of_leads hleads hloop
      have hask := loop_asks fileRound_asks_nil (fileRound_asks (noCluster_lt hv) hroom) hm
      exact not_clean hd.events hask hv (by rwa [hd.count]) hclean
    | @table v done clock hvis hv hroom hcluster hentry =>
      obtain ⟨buf, d, hd, hleads⟩ := hvis.leads_bad hv hroom hcluster hentry buffer
      obtain ⟨m, hm⟩ := loop_of_leads hleads hloop
      by_cases hroom' : done + roundSize s maxSize done < maxSize
      · have hask := loop_asks fileRound_asks_nil
          (fileRound_asks (noCluster_lt (.inr (.inr rfl))) hroom') hm
        exact not_clean hd.events hask (.inr (.inr rfl)) (by rwa [hd.count]) hclean
      · cases m with
        | zero => cases hm
        | succ m =>
          rw [loop_inl (by rw [fileRound, if_neg (fun hgo => hroom' hgo.2)])] at hm
          exact (hvis.whole.round hroom s).ne (congrArg Prod.fst (Option.some.inj hm))

end File

/-! ## The chain of a directory -/

/-- The chain comes to a value, with so many polls made; no cluster before has ended the
search. It is said of the state before the call: what the device holds, and which polls
succeed. -/
inductive FindVisits (s : Fat32) (dir : UInt32) (name : List UInt8) : UInt32 → Nat → Prop where
  | start : FindVisits s dir name dir s.dev.clock
  | next {v : UInt32} {clock : Nat} (h : FindVisits s dir name v clock) (hv : v < fat32Eoc)
      (hcluster : ClusterOk s clock)
      (hscan : Fat32.scanEntries name (s.clusterAt v) (entriesPerCluster s) 0 = .more)
      (hentry : s.dev.ok (clock + s.count) = true) :
      FindVisits s dir name (s.entryAt v) (clock + s.count + 1)

/-- It comes to a value that is no cluster, or the table cannot be read. -/
inductive FindTrouble (s : Fat32) (dir : UInt32) (name : List UInt8) : Prop where
  | value {v : UInt32} {clock : Nat} (h : FindVisits s dir name v clock) (hv : NoCluster v)
  | table {v : UInt32} {clock : Nat} (h : FindVisits s dir name v clock) (hv : v < fat32Eoc)
      (hcluster : ClusterOk s clock)
      (hscan : Fat32.scanEntries name (s.clusterAt v) (entriesPerCluster s) 0 = .more)
      (hentry : s.dev.ok (clock + s.count) = false)

/-- The values of the chain when there is nothing to read in a cluster, failed reads
included. With no sectors in a cluster a round is one read of the table and nothing
else, so the poll it makes is known from its number. -/
def looseValue (s : Fat32) (dir : UInt32) : Nat → UInt32
  | 0 => dir
  | n + 1 =>
    if s.dev.ok (s.dev.clock + n) = true then s.entryAt (looseValue s dir n) else fat32Bad

/-- A round of `fat32_find_entry`, at a value: on the left what it returns, on the right
the next head, like `listRound`. The caller's buffer changes in the last round only, so
it is not in the head. -/
def findRound (name : List UInt8) (entry : ByteMem) (h : UInt32 × Fat32) :
    (Int × ByteMem × Fat32) ⊕ (UInt32 × Fat32) :=
  if h.1 < fat32Eoc then
    let r := h.2.readCluster h.1
    if r.1 ≠ 0 then .inl (-1, entry, r.2)
    else
      match Fat32.scanEntries name r.2.clusterBuffer (entriesPerCluster h.2) 0 with
      | .missing => .inl (-1, entry, r.2)
      | .found i => .inl (0, entry.copy 0 (fun k => r.2.clusterBuffer (32 * i + k)) 32, r.2)
      | .more => .inr (r.2.fatReadEntry h.1)
  else .inl (-1, entry, h.2)

theorem findLoop_eq_some {name : List UInt8} {n : Nat} {h : UInt32 × Fat32} {r : Int}
    {entry entry' : ByteMem} {s : Fat32} :
    Fat32.findLoop name n h.1 entry h.2 = (some r, entry', s) ↔
      loop (findRound name entry) n h = some (r, entry', s) := by
  induction n generalizing h with
  | zero => simp [Fat32.findLoop, loop]
  | succ n ih =>
    rw [Fat32.findLoop, loop, findRound, entriesPerCluster]
    split
    · dsimp only
      split
      · simp
      · generalize Fat32.scanEntries name (h.2.readCluster h.1).2.clusterBuffer _ 0 = scan
        cases scan with
        | missing => simp
        | found i => simp
        | more => exact ih
    · simp

/-! ### What a look at a cluster depends on -/

theorem namePart_congr {e e' : ByteMem} {n start : Nat}
    (h : ∀ k, k < start + n → e k = e' k) :
    Fat32.namePart e start n = Fat32.namePart e' start n := by
  induction n generalizing start with
  | zero => rfl
  | succ n ih =>
    rw [Fat32.namePart, Fat32.namePart, h start (by omega),
      ih (fun k hk => h k (by omega))]

theorem fatNameToStr_congr {e e' : ByteMem} (h : ∀ k < 11, e k = e' k) :
    Fat32.fatNameToStr e = Fat32.fatNameToStr e' := by
  rw [Fat32.fatNameToStr, Fat32.fatNameToStr, h 8 (by decide),
    namePart_congr (n := 8) (fun k hk => h k (by omega)),
    namePart_congr (n := 3) (fun k hk => h k (by omega))]

theorem scanEntries_congr {name : List UInt8} {m m' : ByteMem} {n i : Nat}
    (h : ∀ k < 32 * (i + n), m k = m' k) :
    Fat32.scanEntries name m n i = Fat32.scanEntries name m' n i := by
  induction n generalizing i with
  | zero => rfl
  | succ n ih =>
    have hentry : ∀ k < 32, m (32 * i + k) = m' (32 * i + k) := fun k hk => h _ (by omega)
    have hname := fatNameToStr_congr fun k hk => hentry k (by omega)
    have hrest := ih (i := i + 1) fun k hk => h k (by omega)
    simp only [Fat32.scanEntries, hentry 0 (by decide), hentry 11 (by decide), hname, hrest]

section Find

variable {s : Fat32} {dir : UInt32} {name : List UInt8} (entry : ByteMem)

/-- The entries that are looked at have been read. -/
theorem entries_le (h : s.sectorsPerCluster.toNat < 256) :
    32 * entriesPerCluster s ≤ 512 * s.count := by
  have hcount : s.count = s.sectorsPerCluster.toNat := by
    rw [Fat32.count, UInt32.toNat_toUInt8, Nat.mod_eq_of_lt h]
  rw [entriesPerCluster, UInt32.toNat_div, UInt32.toNat_mul, hcount,
    show (512 : UInt32).toNat = 512 from rfl, show (32 : UInt32).toNat = 32 from rfl]
  omega

/-- The driver sees the entries of the cluster it has read. -/
theorem scan_buffer (hs : Opened s) {v : UInt32} {buf : ByteMem}
    (h : ∀ i < 512 * s.count, buf i = s.clusterAt v i) :
    Fat32.scanEntries name buf (entriesPerCluster s) 0 =
      Fat32.scanEntries name (s.clusterAt v) (entriesPerCluster s) 0 := by
  have hle := entries_le hs.small
  exact scanEntries_congr fun k hk => h k (by omega)

/-- The loop comes to every value of the chain. -/
theorem FindVisits.leads (hs : Opened s) {v : UInt32} {clock : Nat}
    (h : FindVisits s dir name v clock) :
    ∃ d, Later s clock d ∧ Leads (findRound name entry) (dir, s) (v, d) := by
  induction h with
  | start => exact ⟨s, Later.refl s, .refl⟩
  | @next v clock _ hv hcluster hscan hentry ih =>
    obtain ⟨d, hd, hleads⟩ := ih
    obtain ⟨buf, hread, hbuf⟩ := hd.readCluster v hcluster
    have hd' := hd.clusterRead v buf (clock + s.count)
    obtain ⟨buf', hnext⟩ := hd'.fatReadEntry v hentry
    refine ⟨_, hd'.entryRead v (some (s.entryAt v)) buf', hleads.tail ?_⟩
    rw [findRound, if_pos hv, hread]
    simp only [ne_eq, not_true_eq_false, if_false]
    rw [hd.entriesPerCluster, Fat32.clusterRead_buffer, scan_buffer hs hbuf, hscan, ← hnext]

/-- When the table cannot be read, it comes to the error value. -/
theorem FindVisits.leads_bad (hs : Opened s) {v : UInt32} {clock : Nat}
    (h : FindVisits s dir name v clock) (hv : v < fat32Eoc) (hcluster : ClusterOk s clock)
    (hscan : Fat32.scanEntries name (s.clusterAt v) (entriesPerCluster s) 0 = .more)
    (hentry : s.dev.ok (clock + s.count) = false) :
    ∃ d, Later s (clock + s.count + 1) d ∧
      Leads (findRound name entry) (dir, s) (fat32Bad, d) := by
  obtain ⟨d, hd, hleads⟩ := h.leads entry hs
  obtain ⟨buf, hread, hbuf⟩ := hd.readCluster v hcluster
  have hd' := hd.clusterRead v buf (clock + s.count)
  have hbad := hd'.fatReadEntry_failed v hentry
  refine ⟨_, hd'.entryRead v none (d.clusterRead v buf (clock + s.count)).sectorBuffer,
    hleads.tail ?_⟩
  rw [findRound, if_pos hv, hread]
  simp only [ne_eq, not_true_eq_false, if_false]
  rw [hd.entriesPerCluster, Fat32.clusterRead_buffer, scan_buffer hs hbuf, hscan, ← hbad]

/-- A round that is not the last asks for the cluster first. -/
theorem findRound_asks {h : UInt32 × Fat32} (hv : h.1 < fat32Eoc) :
    Asks (findRound name entry) Prod.snd (fun r => r.2.2) h [.cluster h.1 h.2.count] := by
  have hcluster : (h.2.readCluster h.1).2.events = h.2.events ++ [.cluster h.1 h.2.count] := rfl
  obtain ⟨value, hentry⟩ := Fat32.fatReadEntry_events h.1 (h.2.readCluster h.1).2
  constructor
  · intro r hr
    rw [findRound, if_pos hv] at hr
    dsimp only at hr
    split at hr
    · obtain rfl := Sum.inl.inj hr
      exact List.prefix_rfl
    · split at hr
      · obtain rfl := Sum.inl.inj hr
        exact List.prefix_rfl
      · obtain rfl := Sum.inl.inj hr
        exact List.prefix_rfl
      · exact nomatch hr
  · intro h' hr
    rw [findRound, if_pos hv] at hr
    dsimp only at hr
    split at hr
    · exact nomatch hr
    · split at hr
      · exact nomatch hr
      · exact nomatch hr
      · obtain rfl := Sum.inr.inj hr
        rw [hentry, hcluster]
        exact List.prefix_append _ _

theorem findRound_asks_nil (h : UInt32 × Fat32) :
    Asks (findRound name entry) Prod.snd (fun r => r.2.2) h [] := by
  by_cases hv : h.1 < fat32Eoc
  · have hasks : Asks (findRound name entry) Prod.snd (fun r => r.2.2) h
        [.cluster h.1 h.2.count] := findRound_asks entry hv
    rw [Asks, List.append_nil]
    exact ⟨fun r hr => (List.prefix_append _ _).trans (hasks.1 r hr),
      fun h' hr => (List.prefix_append _ _).trans (hasks.2 h' hr)⟩
  · rw [Asks, List.append_nil, findRound, if_neg hv]
    exact ⟨fun r hr => by rw [← Sum.inl.inj hr], fun h' hr => nomatch hr⟩

/-- A lookup in trouble asks for sectors with a value that is no cluster. -/
theorem FindTrouble.unclean (hs : Opened s) (hc : s.count ≠ 0) (ht : FindTrouble s dir name)
    {n : Nat} {r : Int × ByteMem × Fat32} (hl : loop (findRound name entry) n (dir, s) = some r) :
    ¬ Clean s r.2.2 := by
  have hat : ∀ v clock d, NoCluster v → Later s clock d →
      Leads (findRound name entry) (dir, s) (v, d) → ¬ Clean s r.2.2 := by
    intro v clock d hv hd hleads
    obtain ⟨m, hm⟩ := loop_of_leads hleads hl
    have hask := loop_asks (findRound_asks_nil entry) (findRound_asks entry (noCluster_lt hv)) hm
    exact not_clean hd.events hask hv (by rwa [hd.count])
  cases ht with
  | value hvis hv =>
    obtain ⟨d, hd, hleads⟩ := hvis.leads entry hs
    exact hat _ _ d hv hd hleads
  | table hvis hv hcluster hscan hentry =>
    obtain ⟨d, hd, hleads⟩ := hvis.leads_bad entry hs hv hcluster hscan hentry
    exact hat _ _ d (.inr (.inr rfl)) hd hleads

/-! ### Clusters without sectors -/

theorem Opened.no_sectors (hs : Opened s) (hc : s.count = 0) : s.sectorsPerCluster = 0 := by
  rw [Fat32.count, UInt32.toNat_toUInt8, Nat.mod_eq_of_lt hs.small] at hc
  exact UInt32.toNat_inj.mp hc

theorem entries_no_sectors (h : s.sectorsPerCluster = 0) : entriesPerCluster s = 0 := by
  rw [entriesPerCluster, h]
  rfl

variable (name) in
/-- A round reads an entry and goes on. -/
theorem loose_round (hs : Opened s) (hc : s.count = 0) {j : Nat} {d : Fat32}
    (hd : Later s (s.dev.clock + j) d) (hv : looseValue s dir j < fat32Eoc) :
    ∃ d', findRound name entry (looseValue s dir j, d) = .inr (looseValue s dir (j + 1), d') ∧
      Later s (s.dev.clock + (j + 1)) d' := by
  have hcluster : ClusterOk s (s.dev.clock + j) := fun k hk => by
    rw [hc] at hk
    exact absurd hk (Nat.not_lt_zero k)
  obtain ⟨buf, hread, -⟩ := hd.readCluster (looseValue s dir j) hcluster
  have hd' := hd.clusterRead (looseValue s dir j) buf (s.dev.clock + j + s.count)
  rw [hc, Nat.add_zero] at hd' hread
  have hround : findRound name entry (looseValue s dir j, d) = .inr
      ((d.clusterRead (looseValue s dir j) buf (s.dev.clock + j)).fatReadEntry
        (looseValue s dir j)) := by
    rw [findRound, if_pos hv, hread]
    simp only [ne_eq, not_true_eq_false, if_false]
    rw [hd.entriesPerCluster, entries_no_sectors (hs.no_sectors hc)]
    rfl
  rw [hround, looseValue]
  cases hok : s.dev.ok (s.dev.clock + j) with
  | true =>
    obtain ⟨buf', hnext⟩ := hd'.fatReadEntry (looseValue s dir j) hok
    rw [if_pos rfl, hnext]
    exact ⟨_, rfl, hd'.entryRead _ _ _⟩
  | false =>
    rw [if_neg (by decide), hd'.fatReadEntry_failed _ hok]
    exact ⟨_, rfl, hd'.entryRead _ _ _⟩

variable (name) in
/-- The lookup returns when the values come to an end mark, and only then. -/
theorem loose_ends_iff (hs : Opened s) (hc : s.count = 0) :
    (∃ n r, loop (findRound name entry) n (dir, s) = some r) ↔
      ∃ j, fat32Eoc ≤ looseValue s dir j := by
  refine loop_ends_iff (R := fun j h => h.1 = looseValue s dir j ∧ Later s (s.dev.clock + j) h.2)
    ?_ ?_ ⟨rfl, Later.refl s⟩
  · rintro j ⟨v, d⟩ ⟨rfl, hd⟩ hlt
    obtain ⟨d', hround, hd'⟩ := loose_round name entry hs hc hd (UInt32.not_le.mp hlt)
    exact ⟨_, hround, rfl, hd'⟩
  · rintro j ⟨v, d⟩ ⟨rfl, hd⟩ hend
    exact ⟨_, by rw [findRound, if_neg (UInt32.not_lt.mpr hend)]⟩

/-- And it returns -1, having asked for nothing. -/
theorem loose_reported (hs : Opened s) (hc : s.count = 0) {n : Nat} {r : Int × ByteMem × Fat32}
    (hl : loop (findRound name entry) n (dir, s) = some r) : r.1 = -1 ∧ Clean s r.2.2 := by
  -- With no sectors in a cluster its read succeeds, and with no entries in it nothing
  -- is found: a round is one read of the table.
  have hround : ∀ (v : UInt32) (d : Fat32), d.sectorsPerCluster = 0 → v < fat32Eoc →
      ∃ buf clock, d.count = 0 ∧
        findRound name entry (v, d) = .inr ((d.clusterRead v buf clock).fatReadEntry v) := by
    intro v d hspc hv
    have hcount : d.count = 0 := by
      rw [Fat32.count, hspc]
      rfl
    obtain ⟨buf, hread, -⟩ := Fat32.readCluster_ok (s := d) v fun k hk => by
      rw [hcount] at hk
      exact absurd hk (Nat.not_lt_zero k)
    refine ⟨buf, d.dev.clock + d.count, hcount, ?_⟩
    rw [findRound, if_pos hv, hread]
    simp only [ne_eq, not_true_eq_false, if_false]
    rw [entries_no_sectors hspc]
    rfl
  refine loop_invariant (P := fun h => h.2.sectorsPerCluster = 0 ∧ Clean s h.2)
    (Q := fun r => r.1 = -1 ∧ Clean s r.2.2) ?_ ?_ ⟨hs.no_sectors hc, Clean.refl s⟩ hl
  · rintro ⟨v, d⟩ h' ⟨hspc, hclean⟩ hr
    by_cases hv : v < fat32Eoc
    · obtain ⟨buf, clock, hcount, hgo⟩ := hround v d hspc hv
      obtain rfl := Sum.inr.inj (hgo.symm.trans hr)
      obtain ⟨value, hevents⟩ := Fat32.fatReadEntry_events v (d.clusterRead v buf clock)
      refine ⟨(Fat32.fatReadEntry_spc _ _).trans hspc,
        hclean.append (hevents.trans (List.append_assoc _ _ _)) fun w count hmem _ => ?_⟩
      -- The cluster was asked for without sectors, which is allowed.
      rw [hcount] at hmem
      simp only [List.cons_append, List.nil_append, List.mem_cons, FatRead.cluster.injEq,
        reduceCtorEq, List.not_mem_nil, or_false] at hmem
      exact hmem.2
    · rw [findRound, if_neg hv] at hr
      cases hr
  · rintro ⟨v, d⟩ r ⟨hspc, hclean⟩ hr
    by_cases hv : v < fat32Eoc
    · obtain ⟨buf, clock, -, hgo⟩ := hround v d hspc hv
      cases hgo.symm.trans hr
    · rw [findRound, if_neg hv] at hr
      rw [← Sum.inl.inj hr]
      exact ⟨rfl, hclean⟩

end Find

/-! ## The functions -/

/-- **Errors of the table.** When the table cannot be read, or the chain comes to a value that is no
cluster while there is something to look for, no call handles it: it is read as a cluster. All that
is left are lookups on a volume without sectors in its clusters, if they return at all. -/
theorem fat32_errors_iff {s : Fat32} (hs : Buffered s) (first maxSize dir : UInt32)
    (buffer entry : ByteMem) (name : List UInt8) :
    ((FileTrouble s first maxSize → ∃ n, Reported s (s.readFile n first buffer maxSize)) ↔
        ¬ FileTrouble s first maxSize) ∧
      ((FindTrouble s dir name → ∃ n, Reported s (s.findEntry n dir name entry)) ↔
        ¬ FindTrouble s dir name ∨
          (s.sectorsPerCluster = 0 ∧ ∃ j, fat32Eoc ≤ looseValue s dir j)) := by
  have hfind : ∀ n, s.findEntry n dir name entry = Fat32.findLoop name n dir entry s := fun n => by
    rw [Fat32.findEntry, if_neg (by simp [hs.valid])]
  refine ⟨⟨fun h ht => ?_, fun h ht => absurd ht h⟩, fun h => ?_, fun h ht => ?_⟩
  · obtain ⟨n, hn⟩ := h ht
    exact ht.unreported hs.toOpened n buffer hn
  · by_cases ht : FindTrouble s dir name
    · obtain ⟨n, hres, hclean⟩ := h ht
      rw [hfind] at hres hclean
      generalize hrun : Fat32.findLoop name n dir entry s = result at hres hclean
      obtain ⟨r, entry', d⟩ := result
      obtain rfl : r = some (-1) := hres
      have hloop : loop (findRound name entry) n (dir, s) = some (-1, entry', d) :=
        findLoop_eq_some.mp hrun
      -- Without sectors in a cluster the lookup returns when the values come to an end
      -- mark. With some it asks for one of no cluster.
      by_cases hc : s.count = 0
      · exact .inr ⟨hs.toOpened.no_sectors hc, (loose_ends_iff name entry hs.toOpened hc).mp ⟨n, _, hloop⟩⟩
      · exact absurd hclean (ht.unclean entry hs.toOpened hc hloop)
    · exact .inl ht
  · obtain ⟨hspc, hends⟩ := h.resolve_left (not_not_intro ht)
    have hc : s.count = 0 := by
      rw [Fat32.count, hspc]
      rfl
    obtain ⟨n, ⟨r, entry', d⟩, hloop⟩ := (loose_ends_iff name entry hs.toOpened hc).mpr hends
    obtain ⟨hr, hclean⟩ := loose_reported entry hs.toOpened hc hloop
    obtain rfl : r = -1 := hr
    refine ⟨n, ?_⟩
    rw [hfind, findLoop_eq_some.mpr hloop]
    exact ⟨rfl, hclean⟩

/-- The device whose third poll reports an error. -/
def thirdPollFails : Device := { oneFile 1 0 with ok := fun n => n != 2 }

/-- The table cannot be read after the only cluster. -/
theorem thirdPollFails_trouble :
    FileTrouble ((closedFat32 thirdPollFails).init 0).2 2 1024 := by
  have hcount : ((closedFat32 thirdPollFails).init 0).2.count = 1 := by decide +kernel
  refine .table .start (by decide) (by decide) (fun k hk => ?_) ?_
  · obtain rfl : k = 0 := by omega
    decide +kernel
  · rw [hcount]
    decide +kernel

/-- On the device whose third poll fails no number of rounds reports the error of the read. -/
theorem fat32_errors_iff_one :
    ¬ ∃ n, Reported ((closedFat32 thirdPollFails).init 0).2
      (((closedFat32 thirdPollFails).init 0).2.readFile n 2 (fun _ => 0) 1024) := by
  have hopen : ((closedFat32 thirdPollFails).init 0).1 = 0 := by decide +kernel
  have hs : Buffered ((closedFat32 thirdPollFails).init 0).2 :=
    ⟨init_opened hopen, by decide +kernel⟩
  intro h
  exact (fat32_errors_iff hs 2 1024 2 (fun _ => 0) (fun _ => 0) [0x41]).1.mp (fun _ => h)
    thirdPollFails_trouble

/-- The call returns two clusters. -/
theorem fat32_error_read :
    ((closedFat32 thirdPollFails).init 0).1 = 0 ∧
      Narrow ((closedFat32 thirdPollFails).init 0).2 ∧
      FileTrouble ((closedFat32 thirdPollFails).init 0).2 2 1024 ∧
      (((closedFat32 thirdPollFails).init 0).2.readFile 3 2 (fun _ => 0) 1024).1 = some 1024 ∧
      ∀ n, ¬ Reported ((closedFat32 thirdPollFails).init 0).2
        (((closedFat32 thirdPollFails).init 0).2.readFile n 2 (fun _ => 0) 1024) := by
  have hopen : ((closedFat32 thirdPollFails).init 0).1 = 0 := by decide +kernel
  exact ⟨hopen, by decide +kernel, thirdPollFails_trouble, by decide +kernel,
    fun n => thirdPollFails_trouble.unreported (init_opened hopen) n _⟩

end OsU
