import OsU.Kernel.Disk

/-!
# `fs.c` — the layout of the volume

The volume is the 8192 sectors from LBA 4096 on: the boot sector, 32 sectors of
file-allocation table, 8 sectors of root directory, and one sector for each of the
clusters 2..8152.

The numbers are the macros of the source, computed as the source computes them, and the
equations behind them (`dataLba_eq` and the like) are what proofs use. The volume has a
FAT16 header, but the driver only accepts a header that says what it would have written
itself, so the layout is fixed once the volume is mounted.

A cluster number is a 16-bit word of the table or of an entry, and nothing forces it
into the data area. `clusterLba` is therefore total: it says which sector the code would
go to for any word.
-/

set_option autoImplicit false

namespace OsU

def fatLbaStart : Nat := 4096
def fatTotalSectors : Nat := 8192
def fatSectorsPerCluster : Nat := 1
def fatReservedSectors : Nat := 1
def fatFatCount : Nat := 1
def fatRootEntries : Nat := 128
def fatSectorsPerFat : Nat := 32

def fatRootDirSectors : Nat := (fatRootEntries * 32 + 511) / 512
def fatFirstDataSector : Nat :=
  fatReservedSectors + fatFatCount * fatSectorsPerFat + fatRootDirSectors
def fatDataSectors : Nat := fatTotalSectors - fatFirstDataSector
def fatClusterCount : Nat := fatDataSectors / fatSectorsPerCluster
def fatClusterMin : Nat := 2
def fatClusterMax : Nat := fatClusterMin + fatClusterCount - 1

def fatAttrArchive : UInt8 := 0x20
def fsAttrDirectory : UInt8 := 0x10
def fat16Eoc : Nat := 0xFFFF

def fsMaxFiles : Nat := 32
def fsMaxName : Nat := 23
def fsMaxFileSize : Nat := 4096
def fsMaxPath : Nat := 128

def rootLba : Nat := fatLbaStart + fatReservedSectors + fatFatCount * fatSectorsPerFat

def dataLba : Nat := fatLbaStart + fatFirstDataSector

/-- `cluster_lba`: the difference is taken in 32 unsigned bits, so clusters 0 and 1 wrap. -/
def clusterLba (cluster : Nat) : Nat :=
  (dataLba + (cluster + 2 ^ 32 - fatClusterMin) % 2 ^ 32 * fatSectorsPerCluster) % 2 ^ 32

/-- The cluster numbers of the data area, `FAT_CLUSTER_MIN <= c <= FAT_CLUSTER_MAX`. The
test the code makes where it makes one. -/
def InRange (c : Nat) : Prop := fatClusterMin ≤ c ∧ c ≤ fatClusterMax

instance (c : Nat) : Decidable (InRange c) := inferInstanceAs (Decidable (_ ∧ _))

theorem fatClusterMin_eq : fatClusterMin = 2 := rfl

theorem fatClusterMax_eq : fatClusterMax = 8152 := rfl

theorem fatClusterCount_eq : fatClusterCount = 8151 := rfl

theorem dataLba_eq : dataLba = 4137 := rfl

theorem rootLba_eq : rootLba = 4129 := rfl

theorem fatRootDirSectors_eq : fatRootDirSectors = 8 := rfl

theorem inRange_iff {c : Nat} : InRange c ↔ 2 ≤ c ∧ c ≤ 8152 := by
  rw [InRange, fatClusterMin_eq, fatClusterMax_eq]

/-- Cluster addresses are consecutive, the two reserved numbers included: those fall on the last
two sectors of the root directory. -/
theorem clusterLba_eq {c : Nat} (h : c < 65536) : clusterLba c = 4135 + c := by
  rw [clusterLba, dataLba_eq, fatClusterMin_eq, fatSectorsPerCluster]
  norm_num
  omega

/-- A cluster address fits the 28 bits of the drive register. -/
theorem clusterLba_mod {c : Nat} (h : c < 65536) : clusterLba c % 2 ^ 28 = 4135 + c := by
  rw [clusterLba_eq h]
  omega

end OsU
