import OsU.Kernel.Fat32

/-!
# A FAT32 partition

What the bytes of the device mean, in exact numbers: where the table and the clusters
are, the entry of a cluster, the chain from a cluster on. `Mounted` is the driver after
it has accepted the boot sector (`init_mounted`); as long as no sector number needs more
than the 28 bits that the drive takes, its two kinds of reads are those of the partition
(`entryAt_eq`, `clusterAt_eq`).

This is the specification for `fat32.c`, in natural numbers and without the driver's
words. The driver computes in 32 bits and hands 28 of them to the drive; where the two
agree is what the lemmas at the end are for.
-/

set_option autoImplicit false

namespace OsU

/-- A partition that begins at sector `lba`. -/
structure Partition where
  sectors : Nat → Sector
  lba : Nat

namespace Partition

variable (p : Partition)

def boot : ByteMem := (p.sectors p.lba).mem

def sectorsPerCluster : Nat := (p.boot 13).toNat

def fatLba : Nat := p.lba + p.boot.le16 14

def dataLba : Nat := p.fatLba + (p.boot 16).toNat * p.boot.le32 36

/-- The first table, byte by byte. -/
def table : ByteMem := fun i => (p.sectors (p.fatLba + i / 512)).mem (i % 512)

/-- The entry of a cluster: 28 bits of its word. -/
def entry (c : Nat) : Nat := p.table.le32 (4 * c) % 2 ^ 28

def clusterLba (c : Nat) : Nat := p.dataLba + (c - 2) * p.sectorsPerCluster

def clusterSize : Nat := 512 * p.sectorsPerCluster

/-- The byte `i` of a cluster. -/
def clusterByte (c i : Nat) : UInt8 := (p.sectors (p.clusterLba c + i / 512)).mem (i % 512)

def cluster (c : Nat) : List UInt8 := (List.range p.clusterSize).map (p.clusterByte c)

/-- The sectors of a cluster, and that of its entry, have numbers below `2 ^ bits`. -/
def Within (bits c : Nat) : Prop :=
  p.fatLba + 4 * c / 512 < 2 ^ bits ∧ p.clusterLba c + p.sectorsPerCluster ≤ 2 ^ bits

instance (bits c : Nat) : Decidable (p.Within bits c) := inferInstanceAs (Decidable (_ ∧ _))

/-- The clusters of the chain that begins with a value; an end mark ends it. -/
def Chain : Nat → List Nat → Prop
  | first, [] => fat32Eoc.toNat ≤ first
  | first, c :: cs => first = c ∧ 2 ≤ c ∧ c < fat32Eoc.toNat ∧ Chain (p.entry c) cs

instance decidableChain : ∀ (first : Nat) (cs : List Nat), Decidable (p.Chain first cs)
  | first, [] => inferInstanceAs (Decidable (fat32Eoc.toNat ≤ first))
  | first, c :: cs =>
    have : Decidable (p.Chain (p.entry c) cs) := decidableChain (p.entry c) cs
    inferInstanceAs
      (Decidable (first = c ∧ 2 ≤ c ∧ c < fat32Eoc.toNat ∧ p.Chain (p.entry c) cs))

end Partition

/-- The driver has taken the numbers of the partition from its boot sector: they are the
numbers as 32 bits have them, whether or not they name blocks of the disk. -/
structure Mounted (p : Partition) (s : Fat32) : Prop where
  valid : s.valid = true
  fat : s.fatStartLba = UInt32.ofNat p.fatLba
  data : s.clusterStartLba = UInt32.ofNat p.dataLba
  spc : s.sectorsPerCluster = UInt32.ofNat p.sectorsPerCluster
  sectors : s.dev.sectors = p.sectors

theorem ofNat_toUInt32 (b : UInt8) : b.toUInt32 = UInt32.ofNat b.toNat :=
  UInt32.toNat_inj.mp (by
    rw [UInt8.toNat_toUInt32, UInt32.toNat_ofNat_of_lt' (b.toNat_lt.trans (by decide))])

/-- What `fat32_init` does when it accepts the boot sector. -/
theorem init_ok {s : Fat32} {lba : UInt32} (h : (s.init lba).1 = 0) :
    ∃ bpb : ByteMem, (∀ i < 512, bpb i = (s.dev.sectors (lba.toNat % 2 ^ 28)).mem i) ∧
      (s.init lba).2 =
        { s with
          sectorBuffer := bpb
          dev := { s.dev with clock := s.dev.clock + 1 }
          bytesPerSector := UInt32.ofNat (bpb.le16 11)
          sectorsPerCluster := (bpb 13).toUInt32
          fatSize := UInt32.ofNat (bpb.le32 36)
          rootCluster := UInt32.ofNat (bpb.le32 44)
          fatStartLba := lba + UInt32.ofNat (bpb.le16 14)
          clusterStartLba := lba + UInt32.ofNat (bpb.le16 14) +
            (bpb 16).toUInt32 * UInt32.ofNat (bpb.le32 36)
          valid := true
          events := [] } := by
  refine ⟨s.sectorBuffer.copy 0 (s.dev.sectors (lba.toNat % 2 ^ 28)).mem 512, fun i hi => ?_, ?_⟩
  · rw [ByteMem.copy_apply, if_pos (by omega), Nat.sub_zero]
  · rw [Fat32.init, diskReadSectors_one] at h ⊢
    generalize s.sectorBuffer.copy 0 (s.dev.sectors (lba.toNat % 2 ^ 28)).mem 512 = bpb at *
    by_cases hok : s.dev.ok s.dev.clock = true
    · simp only [if_pos hok, ne_eq, not_true_eq_false, if_false] at h ⊢
      by_cases hsize : ¬ bpb.le16 11 = 512
      · rw [if_pos hsize] at h
        exact nomatch h
      · rw [if_neg hsize] at h ⊢
        by_cases hfat : bpb 16 = 0 ∨ UInt32.ofNat (bpb.le32 36) = 0
        · rw [if_pos hfat] at h
          exact nomatch h
        · rw [if_neg hfat]
    · simp only [if_neg hok] at h
      exact nomatch h

/-- **What `fat32_init` accepts is mounted.** -/
theorem init_mounted {s : Fat32} {lba : UInt32} (hlba : lba.toNat < 2 ^ 28)
    (h : (s.init lba).1 = 0) : Mounted ⟨s.dev.sectors, lba.toNat⟩ (s.init lba).2 := by
  obtain ⟨bpb, hbpb, hinit⟩ := init_ok h
  generalize hp : Partition.mk s.dev.sectors lba.toNat = p
  have hboot : ∀ i < 512, bpb i = p.boot i := by
    intro i hi
    rw [hbpb i hi, Nat.mod_eq_of_lt hlba, ← hp]
    rfl
  have h16 : bpb.le16 14 = p.boot.le16 14 := by
    rw [ByteMem.le16_eq, ByteMem.le16_eq, hboot 14 (by decide), hboot (14 + 1) (by decide)]
  have h32 : bpb.le32 36 = p.boot.le32 36 :=
    ByteMem.le32_congr fun k hk => hboot (36 + k) (by omega)
  have hstart : lba + UInt32.ofNat (bpb.le16 14) = UInt32.ofNat p.fatLba := by
    rw [Partition.fatLba, UInt32.ofNat_add, h16, ← hp, UInt32.ofNat_toNat]
  have hdata : lba + UInt32.ofNat (bpb.le16 14) + (bpb 16).toUInt32 * UInt32.ofNat (bpb.le32 36) =
      UInt32.ofNat p.dataLba := by
    rw [hstart, Partition.dataLba, UInt32.ofNat_add, UInt32.ofNat_mul, ofNat_toUInt32,
      hboot 16 (by decide), h32]
  have hspc : (bpb 13).toUInt32 = UInt32.ofNat p.sectorsPerCluster := by
    rw [ofNat_toUInt32, hboot 13 (by decide), Partition.sectorsPerCluster]
  have hsectors : s.dev.sectors = p.sectors := by rw [← hp]
  rw [hinit]
  exact ⟨rfl, hstart, hdata, hspc, hsectors⟩

namespace Fat32

/-- The partition that the driver is to open. -/
def partition (lba : UInt32) (s : Fat32) : Partition := ⟨s.dev.sectors, lba.toNat⟩

/-- The sector number that the driver computes for an entry. -/
def fatSector (c : UInt32) (s : Fat32) : UInt32 := s.fatStartLba + c * 4 / 512

/-- The value that `fat_read_entry` finds, when the device does not fail. -/
def entryAt (c : UInt32) (s : Fat32) : UInt32 :=
  UInt32.ofNat ((s.dev.sectors ((s.fatSector c).toNat % 2 ^ 28)).mem.le32 (c * 4 % 512).toNat) &&&
    0x0FFFFFFF

/-- The byte `i` that `read_cluster` finds. -/
def clusterAt (c : UInt32) (s : Fat32) (i : Nat) : UInt8 :=
  (s.dev.sectors ((s.clusterToLba c).toNat % 2 ^ 28 + i / 512)).mem (i % 512)

/-- The number of sectors that `read_cluster` asks for. -/
def count (s : Fat32) : Nat := s.sectorsPerCluster.toUInt8.toNat

theorem entryOffset_le (c : UInt32) : (c * 4 % 512).toNat + 4 ≤ 512 := by
  rw [UInt32.toNat_mod, UInt32.toNat_mul]
  have h : (4 : UInt32).toNat = 4 := rfl
  have h' : (512 : UInt32).toNat = 512 := rfl
  rw [h, h']
  omega

/-- The driver after it has read an entry, with what is in its sector buffer then. -/
def entryRead (c : UInt32) (value : Option UInt32) (buf : ByteMem) (s : Fat32) : Fat32 :=
  { s with
    sectorBuffer := buf
    dev := { s.dev with clock := s.dev.clock + 1 }
    events := s.events ++ [.entry c value] }

/-- After it has read a cluster, or tried to. -/
def clusterRead (c : UInt32) (buf : ByteMem) (clock : Nat) (s : Fat32) : Fat32 :=
  { s with
    clusterBuffer := buf
    dev := { s.dev with clock := clock }
    events := s.events ++ [.cluster c s.count] }

@[simp] theorem clusterRead_buffer (c : UInt32) (buf : ByteMem) (clock : Nat) (s : Fat32) :
    (s.clusterRead c buf clock).clusterBuffer = buf := rfl

/-- A read of the table that succeeds. -/
theorem fatReadEntry_ok {s : Fat32} (c : UInt32) (h : s.dev.ok s.dev.clock = true) :
    ∃ buf, s.fatReadEntry c = (s.entryAt c, s.entryRead c (some (s.entryAt c)) buf) := by
  have hread := diskReadSectors_one (s.fatSector c).toNat s.sectorBuffer s.dev
  rw [if_pos h] at hread
  refine ⟨s.sectorBuffer.copy 0 (s.dev.sectors ((s.fatSector c).toNat % 2 ^ 28)).mem 512, ?_⟩
  have hword : (s.sectorBuffer.copy 0 (s.dev.sectors ((s.fatSector c).toNat % 2 ^ 28)).mem 512).le32
        (c * 4 % 512).toNat =
      (s.dev.sectors ((s.fatSector c).toNat % 2 ^ 28)).mem.le32 (c * 4 % 512).toNat := by
    have hoff := entryOffset_le c
    refine ByteMem.le32_congr fun k hk => ?_
    rw [ByteMem.copy_apply, if_pos (by omega), Nat.sub_zero]
  rw [fatSector] at hread hword ⊢
  simp only [fatReadEntry, hread, entryAt, fatSector, hword]
  rfl

/-- One that fails. -/
theorem fatReadEntry_failed {s : Fat32} (c : UInt32) (h : s.dev.ok s.dev.clock = false) :
    s.fatReadEntry c = (fat32Bad, s.entryRead c none s.sectorBuffer) := by
  have hread := diskReadSectors_one (s.fatSector c).toNat s.sectorBuffer s.dev
  rw [if_neg (by simp [h]), fatSector] at hread
  simp only [fatReadEntry, hread]
  rfl

/-- Either way it is logged. -/
theorem fatReadEntry_events (c : UInt32) (s : Fat32) :
    ∃ value, (s.fatReadEntry c).2.events = s.events ++ [.entry c value] := by
  cases h : s.dev.ok s.dev.clock with
  | true =>
    obtain ⟨buf, hread⟩ := fatReadEntry_ok c h
    exact ⟨_, congrArg (fun r => r.2.events) hread⟩
  | false => exact ⟨_, congrArg (fun r => r.2.events) (fatReadEntry_failed c h)⟩

theorem fatReadEntry_spc (c : UInt32) (s : Fat32) :
    (s.fatReadEntry c).2.sectorsPerCluster = s.sectorsPerCluster := by
  cases h : s.dev.ok s.dev.clock with
  | true =>
    obtain ⟨buf, hread⟩ := fatReadEntry_ok c h
    exact congrArg (fun r => r.2.sectorsPerCluster) hread
  | false => exact congrArg (fun r => r.2.sectorsPerCluster) (fatReadEntry_failed c h)

/-- A cluster that is read: the buffer begins with its bytes. -/
theorem readCluster_ok {s : Fat32} (c : UInt32) (h : s.dev.Runs s.count) :
    ∃ buf, s.readCluster c = (0, s.clusterRead c buf (s.dev.clock + s.count)) ∧
      ∀ i < 512 * s.count, buf i = s.clusterAt c i := by
  have hread := (diskReadLoop_spec ((s.clusterToLba c).toNat % 2 ^ 28) s.count 0 s.clusterBuffer
    s.dev).2 h
  simp only [readCluster, diskReadSectors]
  rw [count] at hread
  rw [hread]
  refine ⟨_, rfl, fun i hi => ?_⟩
  rw [count] at hi
  simp only [mul_zero, zero_le, zero_add, true_and]
  rw [if_pos hi]
  rfl

end Fat32

/-! ## The driver's reads are the partition's -/

namespace Mounted

variable {p : Partition} {s : Fat32} (h : Mounted p s)

include h

theorem toNat_count : s.count = p.sectorsPerCluster := by
  have hlt : p.sectorsPerCluster < 2 ^ 8 := UInt8.toNat_lt _
  rw [Fat32.count, UInt32.toNat_toUInt8, h.spc, UInt32.toNat_ofNat_of_lt' (hlt.trans (by decide)),
    Nat.mod_eq_of_lt hlt]

theorem entryRead (c : UInt32) (value : Option UInt32) (buf : ByteMem) :
    Mounted p (s.entryRead c value buf) :=
  ⟨h.valid, h.fat, h.data, h.spc, h.sectors⟩

theorem clusterRead (c : UInt32) (buf : ByteMem) (clock : Nat) :
    Mounted p (s.clusterRead c buf clock) :=
  ⟨h.valid, h.fat, h.data, h.spc, h.sectors⟩

/-- The entry of a cluster, where it is in reach. -/
theorem entryAt_eq {c : UInt32} (hc : c < fat32Eoc) (hw : p.Within 28 c.toNat) :
    (s.entryAt c).toNat = p.entry c.toNat := by
  have hlt : c.toNat < 2 ^ 28 := (UInt32.lt_iff_toNat_lt.mp hc).trans (by decide)
  have hfour : (c * 4).toNat = 4 * c.toNat := by
    rw [UInt32.toNat_mul, show (4 : UInt32).toNat = 4 from rfl]
    omega
  have hsector : (s.fatSector c).toNat % 2 ^ 28 = p.fatLba + 4 * c.toNat / 512 := by
    have hfit := hw.1
    rw [Fat32.fatSector, h.fat, UInt32.toNat_add, UInt32.toNat_div, hfour, UInt32.toNat_ofNat',
      show (512 : UInt32).toNat = 512 from rfl]
    omega
  have hoffset : (c * 4 % 512).toNat = 4 * c.toNat % 512 := by
    rw [UInt32.toNat_mod, hfour]
    rfl
  have hword : (s.dev.sectors ((s.fatSector c).toNat % 2 ^ 28)).mem.le32 (c * 4 % 512).toNat =
      p.table.le32 (4 * c.toNat) := by
    rw [hsector, hoffset, h.sectors]
    refine ByteMem.le32_congr fun k hk => ?_
    have hdiv : (4 * c.toNat + k) / 512 = 4 * c.toNat / 512 := by omega
    have hmod : (4 * c.toNat + k) % 512 = 4 * c.toNat % 512 + k := by omega
    rw [Partition.table, hdiv, hmod]
  rw [Fat32.entryAt, hword, UInt32.toNat_and, UInt32.toNat_ofNat_of_lt' (ByteMem.le32_lt _ _),
    Partition.entry]
  exact Nat.and_two_pow_sub_one_eq_mod _ 28

/-- The bytes of a cluster, the same way. -/
theorem clusterAt_eq {c : UInt32} (hc : 2 ≤ c.toNat) (hw : p.Within 28 c.toNat) {i : Nat}
    (hi : i < p.clusterSize) : s.clusterAt c i = p.clusterByte c.toNat i := by
  have hfit := hw.2
  have hsub : (c - 2).toNat = c.toNat - 2 := by
    have hle : 2 ≤ c := UInt32.le_iff_toNat_le.mpr hc
    rw [UInt32.toNat_sub_of_le _ _ hle]
    rfl
  have hpos : 0 < p.sectorsPerCluster := by
    rw [Partition.clusterSize] at hi
    omega
  have hlba : (s.clusterToLba c).toNat % 2 ^ 28 = p.clusterLba c.toNat := by
    rw [Fat32.clusterToLba, h.data, h.spc, UInt32.toNat_add, UInt32.toNat_mul, hsub,
      UInt32.toNat_ofNat', UInt32.toNat_ofNat', Nat.mul_mod_mod, Nat.mod_add_mod, Nat.add_mod_mod]
    rw [Partition.clusterLba] at hfit ⊢
    omega
  rw [Fat32.clusterAt, hlba, h.sectors, Partition.clusterByte]

end Mounted

end OsU
