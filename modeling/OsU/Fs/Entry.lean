import OsU.Kernel.Disk
import OsU.Fs.Name

/-!
# `fs.c` — directory entries

`fat_dir_entry_t` is a packed structure laid over 32 bytes of a directory buffer, and it
is kept as those bytes here: the fields the code touches are read and stored at their
offsets, the others (times, dates, the high cluster word) only ever move along with the
block. `entryAt` and `putEntry` are the pointer `&ent[i]`, read and stored through.

The lemmas are one for each field and each store, tagged for `simp`: after them no proof
about a directory looks at a byte. What a store leaves alone is part of the set, since
an update of an entry is always several stores.
-/

set_option autoImplicit false

namespace OsU

/-- `fat_dir_entry_t`, as its 32 bytes. -/
structure FatDirEntry where
  bytes : Fin 32 → UInt8

namespace FatDirEntry

theorem ext_bytes {e e' : FatDirEntry} (h : ∀ k, e.bytes k = e'.bytes k) : e = e' := by
  cases e
  cases e'
  exact congrArg mk (funext h)

def byte (e : FatDirEntry) (j : Nat) : UInt8 := e.bytes (Fin.ofNat 32 j)

/-- `(uint8_t)e->name[0]` -/
def lead (e : FatDirEntry) : UInt8 := e.byte 0

def name (e : FatDirEntry) : List UInt8 := (List.range 8).map e.byte

def ext (e : FatDirEntry) : List UInt8 := (List.range 3).map fun j => e.byte (8 + j)

def attr (e : FatDirEntry) : UInt8 := e.byte 11

def fstClusLo (e : FatDirEntry) : Nat := (e.byte 26).toNat ||| ((e.byte 27).toNat <<< 8)

/-- The size, four bytes from offset 28, lowest first. -/
def fileSize (e : FatDirEntry) : Nat :=
  (e.byte 28).toNat + 2 ^ 8 * (e.byte 29).toNat + 2 ^ 16 * (e.byte 30).toNat
    + 2 ^ 24 * (e.byte 31).toNat

def setByte (e : FatDirEntry) (j : Nat) (b : UInt8) : FatDirEntry :=
  ⟨fun k => if k.val = j then b else e.bytes k⟩

/-- `memset(e, 0, sizeof(fat_dir_entry_t))` -/
def zero : FatDirEntry := ⟨fun _ => 0⟩

/-- The two `memcpy` of an encoded name into `name` and `ext`. -/
def setName (e : FatDirEntry) (f11 : List UInt8) : FatDirEntry :=
  ⟨fun k => if k.val < 11 then f11.getD k.val 0 else e.bytes k⟩

def setLead (e : FatDirEntry) (b : UInt8) : FatDirEntry := e.setByte 0 b

def setAttr (e : FatDirEntry) (b : UInt8) : FatDirEntry := e.setByte 11 b

/-- The low word of the first cluster; what does not fit 16 bits is cut off, as the
assignment cuts it. -/
def setFstClusLo (e : FatDirEntry) (v : Nat) : FatDirEntry :=
  (e.setByte 26 (UInt8.ofNat v)).setByte 27 (UInt8.ofNat (v >>> 8))

def setFileSize (e : FatDirEntry) (v : Nat) : FatDirEntry :=
  (((e.setByte 28 (UInt8.ofNat v)).setByte 29 (UInt8.ofNat (v >>> 8))).setByte 30
    (UInt8.ofNat (v >>> 16))).setByte 31 (UInt8.ofNat (v >>> 24))

/-- The eleven name bytes. -/
def name11 (e : FatDirEntry) : List UInt8 := (List.range 11).map e.byte

/-- The directory attribute bit. -/
def isDir (e : FatDirEntry) : Bool := e.attr &&& 0x10 ≠ 0

/-! ## Fields -/

theorem byte_setByte (e : FatDirEntry) {j k : Nat} (hk : k < 32) (b : UInt8) :
    (e.setByte j b).byte k = if k = j then b else e.byte k := by
  simp only [byte, setByte, Fin.val_ofNat, Nat.mod_eq_of_lt hk]

theorem byte_setName (e : FatDirEntry) {k : Nat} (hk : k < 32) (f11 : List UInt8) :
    (e.setName f11).byte k = if k < 11 then f11.getD k 0 else e.byte k := by
  simp only [byte, setName, Fin.val_ofNat, Nat.mod_eq_of_lt hk]

@[simp] theorem byte_zero (k : Nat) : zero.byte k = 0 := rfl

theorem fstClusLo_eq (e : FatDirEntry) :
    e.fstClusLo = (e.byte 26).toNat + 256 * (e.byte 27).toNat :=
  ByteMem.lo_or_hi _ _ (e.byte 26).toNat_lt

theorem fstClusLo_lt (e : FatDirEntry) : e.fstClusLo < 65536 := by
  have h₀ := (e.byte 26).toNat_lt
  have h₁ := (e.byte 27).toNat_lt
  rw [fstClusLo_eq]
  omega

@[simp] theorem lead_zero : zero.lead = 0 := rfl

@[simp] theorem lead_setLead (e : FatDirEntry) (b : UInt8) : (e.setLead b).lead = b := by
  simp [lead, setLead, byte_setByte]

@[simp] theorem lead_setName (e : FatDirEntry) (f11 : List UInt8) :
    (e.setName f11).lead = f11.getD 0 0 := by
  simp [lead, byte_setName]

@[simp] theorem lead_setAttr (e : FatDirEntry) (b : UInt8) : (e.setAttr b).lead = e.lead := by
  simp [lead, setAttr, byte_setByte]

@[simp] theorem lead_setFstClusLo (e : FatDirEntry) (v : Nat) :
    (e.setFstClusLo v).lead = e.lead := by
  simp [lead, setFstClusLo, byte_setByte]

@[simp] theorem lead_setFileSize (e : FatDirEntry) (v : Nat) :
    (e.setFileSize v).lead = e.lead := by
  simp [lead, setFileSize, byte_setByte]

@[simp] theorem attr_setLead (e : FatDirEntry) (b : UInt8) : (e.setLead b).attr = e.attr := by
  simp [attr, setLead, byte_setByte]

@[simp] theorem attr_setAttr (e : FatDirEntry) (b : UInt8) : (e.setAttr b).attr = b := by
  simp [attr, setAttr, byte_setByte]

@[simp] theorem attr_setFstClusLo (e : FatDirEntry) (v : Nat) :
    (e.setFstClusLo v).attr = e.attr := by
  simp [attr, setFstClusLo, byte_setByte]

@[simp] theorem attr_setFileSize (e : FatDirEntry) (v : Nat) :
    (e.setFileSize v).attr = e.attr := by
  simp [attr, setFileSize, byte_setByte]

@[simp] theorem fstClusLo_setFstClusLo (e : FatDirEntry) (v : Nat) :
    (e.setFstClusLo v).fstClusLo = v % 65536 := by
  simp [fstClusLo_eq, setFstClusLo, byte_setByte, Nat.shiftRight_eq_div_pow]
  omega

@[simp] theorem fstClusLo_setLead (e : FatDirEntry) (b : UInt8) :
    (e.setLead b).fstClusLo = e.fstClusLo := by
  simp [fstClusLo_eq, setLead, byte_setByte]

@[simp] theorem fstClusLo_setAttr (e : FatDirEntry) (b : UInt8) :
    (e.setAttr b).fstClusLo = e.fstClusLo := by
  simp [fstClusLo_eq, setAttr, byte_setByte]

@[simp] theorem fstClusLo_setName (e : FatDirEntry) (f11 : List UInt8) :
    (e.setName f11).fstClusLo = e.fstClusLo := by
  simp [fstClusLo_eq, byte_setName]

@[simp] theorem fstClusLo_zero : zero.fstClusLo = 0 := rfl

@[simp] theorem fstClusLo_setFileSize (e : FatDirEntry) (v : Nat) :
    (e.setFileSize v).fstClusLo = e.fstClusLo := by
  simp [fstClusLo_eq, setFileSize, byte_setByte]

@[simp] theorem fileSize_setFileSize (e : FatDirEntry) (v : Nat) :
    (e.setFileSize v).fileSize = v % 2 ^ 32 := by
  simp [fileSize, setFileSize, byte_setByte, Nat.shiftRight_eq_div_pow]
  omega

@[simp] theorem fileSize_setFstClusLo (e : FatDirEntry) (v : Nat) :
    (e.setFstClusLo v).fileSize = e.fileSize := by
  simp [fileSize, setFstClusLo, byte_setByte]

@[simp] theorem fileSize_setAttr (e : FatDirEntry) (b : UInt8) :
    (e.setAttr b).fileSize = e.fileSize := by
  simp [fileSize, setAttr, byte_setByte]

@[simp] theorem fileSize_setName (e : FatDirEntry) (f11 : List UInt8) :
    (e.setName f11).fileSize = e.fileSize := by
  simp [fileSize, byte_setName]

@[simp] theorem fileSize_zero : zero.fileSize = 0 := rfl

theorem name11_congr {e e' : FatDirEntry} (h : ∀ k < 11, e.byte k = e'.byte k) :
    e.name11 = e'.name11 :=
  List.map_congr_left fun k hk => h k (List.mem_range.mp hk)

@[simp] theorem name11_setAttr (e : FatDirEntry) (b : UInt8) : (e.setAttr b).name11 = e.name11 :=
  name11_congr fun k hk => by
    rw [setAttr, byte_setByte e (by omega), if_neg (by omega)]

@[simp] theorem name11_setFstClusLo (e : FatDirEntry) (v : Nat) :
    (e.setFstClusLo v).name11 = e.name11 :=
  name11_congr fun k hk => by
    rw [setFstClusLo, byte_setByte _ (by omega), if_neg (by omega), byte_setByte _ (by omega),
      if_neg (by omega)]

@[simp] theorem name11_setFileSize (e : FatDirEntry) (v : Nat) :
    (e.setFileSize v).name11 = e.name11 :=
  name11_congr fun k hk => by
    simp only [setFileSize]
    rw [byte_setByte _ (by omega), if_neg (by omega), byte_setByte _ (by omega), if_neg (by omega),
      byte_setByte _ (by omega), if_neg (by omega), byte_setByte _ (by omega), if_neg (by omega)]

theorem name11_setName (e : FatDirEntry) {f11 : List UInt8} (h : f11.length = 11) :
    (e.setName f11).name11 = f11 := by
  apply List.ext_getElem
  · simp [name11, h]
  · intro i h₁ h₂
    have hi : i < 11 := by omega
    simp [name11, byte_setName e (show i < 32 by omega), hi, h₂]

theorem lead_eq_name11 (e : FatDirEntry) : e.lead = e.name11.getD 0 0 := by
  simp [lead, name11]

/-- Comparing the two name fields is comparing the eleven bytes. -/
theorem name_ext_eq_iff (e : FatDirEntry) {f11 : List UInt8} (h : f11.length = 11) :
    (e.name = f11.take 8 ∧ e.ext = f11.drop 8) ↔ e.name11 = f11 := by
  have hn : e.name11 = e.name ++ e.ext := by
    simp only [name11, name, ext, show (11 : Nat) = 8 + 3 from rfl, List.range_add, List.map_append,
      List.map_map, Function.comp_def]
  have hl : e.name.length = 8 := by simp [name]
  rw [hn]
  constructor
  · rintro ⟨h₁, h₂⟩
    rw [h₁, h₂, List.take_append_drop]
  · rintro rfl
    exact ⟨by rw [List.take_left' hl], by rw [List.drop_left' hl]⟩

end FatDirEntry

/-! ## Entries in a buffer -/

/-- `ent[i]`, read. -/
def entryAt (buf : ByteMem) (i : Nat) : FatDirEntry := ⟨fun j => buf (32 * i + j)⟩

/-- `ent[i]`, stored. -/
def putEntry (buf : ByteMem) (i : Nat) (e : FatDirEntry) : ByteMem := fun a =>
  if a / 32 = i then e.byte (a % 32) else buf a

/-- Storing an entry changes that entry of the buffer and no other. -/
theorem entryAt_putEntry (buf : ByteMem) (i j : Nat) (e : FatDirEntry) :
    entryAt (putEntry buf i e) j = if j = i then e else entryAt buf j := by
  have hq : ∀ k : Fin 32, (32 * j + (k : Nat)) / 32 = j := fun k => by have := k.isLt; omega
  have hr : ∀ k : Fin 32, (32 * j + (k : Nat)) % 32 = k := fun k => by have := k.isLt; omega
  split
  · rename_i h
    refine FatDirEntry.ext_bytes fun k => ?_
    simp only [entryAt, putEntry, hq, hr, if_pos h, FatDirEntry.byte]
    congr 1
    ext
    simp
  · rename_i h
    refine FatDirEntry.ext_bytes fun k => ?_
    simp only [entryAt, putEntry, hq, if_neg h]

theorem entryAt_congr {buf buf' : ByteMem} {i : Nat}
    (h : ∀ a, 32 * i ≤ a → a < 32 * i + 32 → buf a = buf' a) : entryAt buf i = entryAt buf' i := by
  refine FatDirEntry.ext_bytes fun k => ?_
  have := k.isLt
  exact h _ (by omega) (by omega)

/-- The entries of a directory sector. -/
theorem entryAt_mem_sectorOf (buf : ByteMem) {i : Nat} (h : i < 16) :
    entryAt (sectorOf buf 0).mem i = entryAt buf i :=
  entryAt_congr fun a _ _ => mem_sectorOf buf (i := a) (by omega)

theorem entryAt_copy_mem (buf : ByteMem) (sec : Sector) {i : Nat} (h : i < 16) :
    entryAt (buf.copy 0 sec.mem 512) i = entryAt sec.mem i :=
  entryAt_congr fun a _ _ => by
    rw [ByteMem.copy_apply, if_pos (by omega), Nat.sub_zero]

end OsU
