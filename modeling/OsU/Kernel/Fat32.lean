import OsU.Fs.File

/-!
# `fat32.c` — reading a FAT32 volume

The driver has one sector buffer, for the boot sector and for the table, and one buffer
for a cluster. Its loops follow a chain as long as the values are below the end mark;
they are seen here for so many rounds, and `none` is a loop that is not done by then.
That a loop ends is a statement about some number of rounds, and that it does not is one
about all.

## What `fat32_init` believes

It checks the size of a sector and a few fields for zero, and takes the rest of the boot
sector as it is: where the table begins, how long it is, how many sectors a cluster has.
The sums are in 32 bits and wrap. A chain can name any cluster, and the driver computes
a sector for it and reads there.

## The buffers

The buffers are memory with no end; that of a cluster has 8 sectors in the source, and
`Proof/ClusterBuffer` says when the calls stay within them. Results about what a call
does are about clusters of 8 sectors at most, since with more the driver overwrites its
own variables.

`events` is a ghost: what the driver asked the device for since the volume was opened,
oldest first.
-/

set_option autoImplicit false

namespace OsU

/-- FAT32_EOC -/
def fat32Eoc : UInt32 := 0x0FFFFFF8

/-- FAT32_BAD -/
def fat32Bad : UInt32 := 0x0FFFFFF7

/-- FAT32_FREE -/
def fat32Free : UInt32 := 0x00000000

/-- The size of `cluster_buffer`, 8 sectors. -/
def clusterBufferSize : Nat := 4096

/-- FAT_ATTR_LFN -/
def fatAttrLfn : UInt8 := 0x0F

/-- FAT_ATTR_VOLUME_ID -/
def fatAttrVolumeId : UInt8 := 0x08

/-- FAT_ATTR_DIRECTORY -/
def fatAttrDirectory : UInt8 := 0x10

/-- A read of the driver: the sectors of a cluster, or an entry of the table with its value. -/
inductive FatRead where
  | cluster (cluster : UInt32) (count : Nat)
  | entry (cluster : UInt32) (value : Option UInt32)
  deriving DecidableEq, Repr

/-- `fs` and the buffers, with the device and the ghost. The fields are those that some
call reads. -/
structure Fat32 where
  valid : Bool
  fatStartLba : UInt32
  clusterStartLba : UInt32
  rootCluster : UInt32
  sectorsPerCluster : UInt32
  bytesPerSector : UInt32
  fatSize : UInt32
  sectorBuffer : ByteMem
  clusterBuffer : ByteMem
  dev : Device
  events : List FatRead

namespace Fat32

/-- `fat32_init`. The offsets are those of the packed `fat32_bpb_t`. What is tested is
the size of a sector, and that there are tables with a size; the number of sectors per
cluster is taken as it stands, 0 and 9 to 255 as well. The arithmetic on block numbers
is that of 32 bits. When a test fails, `fs` keeps what an earlier call has set. -/
def init (partitionLba : UInt32) (s : Fat32) : Int × Fat32 :=
  let r := diskReadSectors partitionLba.toNat 1 s.sectorBuffer s.dev
  let s := { s with sectorBuffer := r.2.1, dev := r.2.2 }
  if r.1 ≠ 0 then (-1, s)
  else
    let bpb := s.sectorBuffer
    let numFats := bpb 16
    let fatSize32 := UInt32.ofNat (bpb.le32 36)
    if bpb.le16 11 ≠ 512 then (-1, s)
    else if numFats = 0 ∨ fatSize32 = 0 then (-1, s)
    else
      let fatStartLba := partitionLba + UInt32.ofNat (bpb.le16 14)
      (0, { s with
        bytesPerSector := UInt32.ofNat (bpb.le16 11)
        sectorsPerCluster := (bpb 13).toUInt32
        fatSize := fatSize32
        rootCluster := UInt32.ofNat (bpb.le32 44)
        fatStartLba := fatStartLba
        clusterStartLba := fatStartLba + numFats.toUInt32 * fatSize32
        valid := true
        events := [] })

/-- `cluster_to_lba` -/
def clusterToLba (cluster : UInt32) (s : Fat32) : UInt32 :=
  s.clusterStartLba + (cluster - 2) * s.sectorsPerCluster

/-- `fat_read_entry`: the value for a cluster, by its place in the table. A table sector
that cannot be read gives FAT32_BAD, which is below the end mark. -/
def fatReadEntry (cluster : UInt32) (s : Fat32) : UInt32 × Fat32 :=
  let fatOffset := cluster * 4
  let fatSector := s.fatStartLba + fatOffset / 512
  let entryOffset := fatOffset % 512
  let r := diskReadSectors fatSector.toNat 1 s.sectorBuffer s.dev
  let s := { s with sectorBuffer := r.2.1, dev := r.2.2 }
  if r.1 ≠ 0 then (fat32Bad, { s with events := s.events ++ [.entry cluster none] })
  else
    let entry := UInt32.ofNat (s.sectorBuffer.le32 entryOffset.toNat) &&& 0x0FFFFFFF
    (entry, { s with events := s.events ++ [.entry cluster (some entry)] })

/-- `read_cluster` into `cluster_buffer`; the count is a `uint8_t` of `disk_read_sectors`.

The buffer of the source has `clusterBufferSize` bytes, and nothing here or in `fat32_init` bounds
the count. A cluster of more than 8 sectors is written over what the linker put behind the buffer,
`sector_buffer` and `fs` among it. The buffer here has no end and what lies behind its first bytes
is nothing else, so for such volumes this is not what the call does: what is said of the calls is
said of clusters of 8 sectors at most. -/
def readCluster (cluster : UInt32) (s : Fat32) : Int × Fat32 :=
  let lba := s.clusterToLba cluster
  let count := s.sectorsPerCluster.toUInt8.toNat
  let r := diskReadSectors lba.toNat count s.clusterBuffer s.dev
  (r.1, { s with
    clusterBuffer := r.2.1
    dev := r.2.2
    events := s.events ++ [.cluster cluster count] })

/-- The loop of `fat32_read_file`, `n` rounds of it at most. The end mark is all that is
looked at: 0, 1 and the mark of a bad cluster are followed like any other value. -/
def readFileLoop (maxSize : UInt32) :
    Nat → UInt32 → UInt32 → ByteMem → Fat32 → Option Int × ByteMem × Fat32
  | 0, _, _, buffer, s => (none, buffer, s)
  | n + 1, currentCluster, bytesRead, buffer, s =>
    if currentCluster < fat32Eoc ∧ bytesRead < maxSize then
      let r := s.readCluster currentCluster
      if r.1 ≠ 0 then (some (-1), buffer, r.2)
      else
        let bytesPerCluster := s.sectorsPerCluster * 512
        let toCopy :=
          if bytesRead + bytesPerCluster > maxSize then maxSize - bytesRead else bytesPerCluster
        let buffer := buffer.copy bytesRead.toNat r.2.clusterBuffer toCopy.toNat
        let e := r.2.fatReadEntry currentCluster
        readFileLoop maxSize n e.1 (bytesRead + toCopy) buffer e.2
    else (some bytesRead.toInt32.toInt, buffer, s)

/-- `fat32_read_file` -/
def readFile (n : Nat) (cluster : UInt32) (buffer : ByteMem) (maxSize : UInt32) (s : Fat32) :
    Option Int × ByteMem × Fat32 :=
  if s.valid = false then (some (-1), buffer, s)
  else readFileLoop maxSize n cluster 0 buffer s

/-- The bytes of one half of an 8.3 name, up to its first space. -/
def namePart (fatName : ByteMem) (start : Nat) : Nat → List UInt8
  | 0 => []
  | n + 1 =>
    if fatName start = 0x20 then [] else fatName start :: namePart fatName (start + 1) n

/-- A capital letter is made small. -/
def toLower (b : UInt8) : UInt8 := if 0x41 ≤ b ∧ b ≤ 0x5A then b + 32 else b

/-- `fat_name_to_str`: the bytes before the terminator. The last loop stops at the first NUL. -/
def fatNameToStr (fatName : ByteMem) : List UInt8 :=
  let base := namePart fatName 0 8
  let str := if fatName 8 ≠ 0x20 then base ++ 0x2E :: namePart fatName 8 3 else base
  (cstr str).map toLower ++ str.drop (cstr str).length

/-- A call of the callback of `fat32_list_dir`. -/
structure DirCall where
  name : List UInt8
  isDir : Bool
  size : Nat
  deriving DecidableEq, Repr

/-- The entries from the `i`-th on, `n` of them: has the directory ended, and the calls
made. A part of a long name and the label of the volume are passed over. -/
def listEntries (clusterBuffer : ByteMem) : Nat → Nat → Bool × List DirCall
  | 0, _ => (false, [])
  | n + 1, i =>
    let e : ByteMem := fun k => clusterBuffer (32 * i + k)
    if e 0 = 0x00 then (true, [])
    else if e 0 = 0xE5 then listEntries clusterBuffer n (i + 1)
    else if e 11 &&& fatAttrLfn = fatAttrLfn ∨ e 11 &&& fatAttrVolumeId ≠ 0 then
      listEntries clusterBuffer n (i + 1)
    else if e 0 = 0x2E then listEntries clusterBuffer n (i + 1)
    else
      let call : DirCall := ⟨cstr (fatNameToStr e), e 11 &&& fatAttrDirectory ≠ 0, e.le32 28⟩
      let r := listEntries clusterBuffer n (i + 1)
      (r.1, call :: r.2)

/-- The loop of `fat32_list_dir`, `n` rounds of it at most: `none` says that it has not
ended in them. A round reads a cluster, calls the callback for its entries, and goes on
with the next cluster of the chain unless an end mark was met. The calls are listed, the
callback changes nothing here. -/
def listLoop : Nat → UInt32 → List DirCall → Fat32 → Option Int × List DirCall × Fat32
  | 0, _, calls, s => (none, calls, s)
  | n + 1, currentCluster, calls, s =>
    if currentCluster < fat32Eoc then
      let r := s.readCluster currentCluster
      if r.1 ≠ 0 then (some (-1), calls, r.2)
      else
        let entriesPerCluster := s.sectorsPerCluster * 512 / 32
        let l := listEntries r.2.clusterBuffer entriesPerCluster.toNat 0
        if l.1 then (some 0, calls ++ l.2, r.2)
        else
          let e := r.2.fatReadEntry currentCluster
          listLoop n e.1 (calls ++ l.2) e.2
    else (some 0, calls, s)

/-- `fat32_list_dir`, with the calls of the callback in order; what the callback does is
not the driver's. -/
def listDir (n : Nat) (cluster : UInt32) (s : Fat32) : Option Int × List DirCall × Fat32 :=
  if s.valid = false then (some (-1), [], s) else listLoop n cluster [] s

/-- What a look at the entries of one cluster comes to. -/
inductive Scan where
  /-- The end of the directory. -/
  | missing
  | found (i : Nat)
  /-- No entry here: on to the next cluster. -/
  | more
  deriving DecidableEq, Repr

/-- The entries from the `i`-th on, `n` of them. Unlike the listing, the scan does not
pass over the label of the volume. -/
def scanEntries (name : List UInt8) (clusterBuffer : ByteMem) : Nat → Nat → Scan
  | 0, _ => .more
  | n + 1, i =>
    let e : ByteMem := fun k => clusterBuffer (32 * i + k)
    if e 0 = 0x00 then .missing
    else if e 0 = 0xE5 then scanEntries name clusterBuffer n (i + 1)
    else if e 11 &&& 0x0F = 0x0F then scanEntries name clusterBuffer n (i + 1)
    else if cstr (fatNameToStr e) = cstr name then .found i
    else scanEntries name clusterBuffer n (i + 1)

/-- The loop of `fat32_find_entry`, `n` rounds of it at most, like `listLoop`. The entry
found is copied to the caller; without one his buffer stays as it was. A cluster that
cannot be read and a name that is not there give the same -1. -/
def findLoop (name : List UInt8) :
    Nat → UInt32 → ByteMem → Fat32 → Option Int × ByteMem × Fat32
  | 0, _, entry, s => (none, entry, s)
  | n + 1, currentCluster, entry, s =>
    if currentCluster < fat32Eoc then
      let r := s.readCluster currentCluster
      if r.1 ≠ 0 then (some (-1), entry, r.2)
      else
        let entriesPerCluster := s.sectorsPerCluster * 512 / 32
        match scanEntries name r.2.clusterBuffer entriesPerCluster.toNat 0 with
        | .missing => (some (-1), entry, r.2)
        | .found i => (some 0, entry.copy 0 (fun k => r.2.clusterBuffer (32 * i + k)) 32, r.2)
        | .more =>
          let e := r.2.fatReadEntry currentCluster
          findLoop name n e.1 entry e.2
    else (some (-1), entry, s)

/-- `fat32_find_entry` -/
def findEntry (n : Nat) (dirCluster : UInt32) (name : List UInt8) (entry : ByteMem) (s : Fat32) :
    Option Int × ByteMem × Fat32 :=
  if s.valid = false then (some (-1), entry, s) else findLoop name n dirCluster entry s

end Fat32

end OsU
