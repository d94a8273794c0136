import OsU.Lib.ByteMem

/-!
# `disk.c` — sector transfers

The ATA device as the drivers see it: sectors of 512 bytes, and two transfer loops that
poll the status register before each sector. A poll can report an error, and then the
loop stops with `-1` after the sectors it already moved; that is the only way a transfer
fails.

## What is a parameter

Which polls report an error is the device's business. It is a field of the state, `ok n`
for the `n`-th poll of the run, and no code changes it (`Wrote.ok`), so every statement
that does not ask for `Device.Good` is about each pattern of failures. A device that
answers now and fails later is one of these patterns. One that stays busy for ever is
not: `ata_poll` would never return there, and no call that uses it.

What a failed transfer leaves on the platter is taken to be nothing: the sector whose
poll failed keeps its old content. The sectors before it have been moved, and it is
these that the half-done calls of `fs.c` have to live with.

## What is a ghost

`written` is the list of the sectors written so far, with the routine that asked for
each. No code reads it. It is what the statements about where the file system writes are
about.
-/

set_option autoImplicit false

namespace OsU

/-- One disk sector, 512 bytes. A function rather than a list, so that a sector has no
length to keep. -/
abbrev Sector : Type := Fin 512 → UInt8

/-- The bytes of a sector, through a pointer to the first. -/
def Sector.mem (sec : Sector) : ByteMem := fun i => sec (Fin.ofNat 512 i)

/-- The `k`-th sector's worth of bytes of a buffer: what `disk_write_sectors` sends for
its `k`-th sector. -/
def sectorOf (buf : ByteMem) (k : Nat) : Sector := fun i => buf (512 * k + i)

/-- The routines that write sectors; the tag of an entry of the ghost log. A tag says
who asked, which the number of a sector alone does not: the root directory and a
directory in a cluster are flushed by different routines. -/
inductive Writer where
  | writeBootSector
  | flushFat
  | flushRoot
  | flushCurrentDir
  | writeClusterChain
  | fsMkdir
  deriving DecidableEq, Repr

/-- The device between two polls. Whether a poll succeeds is an arbitrary function of
its number, fixed before the run: a result for all devices is one for every pattern of
failures. -/
structure Device where
  sectors : Nat → Sector
  /-- Does the `n`-th poll of the run succeed? -/
  ok : Nat → Bool
  /-- Polls made so far. -/
  clock : Nat
  /-- The sectors written so far, oldest first. -/
  written : List (Writer × Nat)

/-- A device whose transfers all succeed. The hypothesis of a result that would say
nothing about a broken disk; where a failure has a defined outcome the result is about
every device. -/
def Device.Good (d : Device) : Prop := ∀ n, d.ok n = true

/-- `ata_poll`: wait for the device, and report whether it signalled an error. The clock
is the only thing a poll changes, so that two runs over the same device see the same
failures. -/
def ataPoll (d : Device) : Int × Device :=
  (if d.ok d.clock then 0 else -1, { d with clock := d.clock + 1 })

/-- The `count` iterations of `disk_read_sectors` from the `s`-th on. The buffer is
returned with the sectors that arrived, also when the loop gives up. -/
def diskReadLoop (lba : Nat) : Nat → Nat → ByteMem → Device → Int × ByteMem × Device
  | 0, _, buf, d => (0, buf, d)
  | n + 1, s, buf, d =>
    let p := ataPoll d
    if p.1 ≠ 0 then (-1, buf, p.2)
    else diskReadLoop lba n (s + 1) (buf.copy (512 * s) (p.2.sectors (lba + s)).mem 512) p.2

/-- `disk_read_sectors`: `count` sectors from `lba` on into `buf`. The drive register
takes 28 bits of the address (`ata_select_lba`), so a larger one names the sector it is
congruent to. -/
def diskReadSectors (lba count : Nat) (buf : ByteMem) (d : Device) : Int × ByteMem × Device :=
  diskReadLoop (lba % 2 ^ 28) count 0 buf d

/-- Sector `l` stored by `w`. -/
def Device.store (d : Device) (w : Writer) (l : Nat) (sec : Sector) : Device :=
  { d with
    sectors := fun x => if x = l then sec else d.sectors x
    written := d.written ++ [(w, l)] }

/-- The `count` iterations of `disk_write_sectors` from the `s`-th on. When it gives up,
the sectors before are on the disk. -/
def diskWriteLoop (w : Writer) (lba : Nat) (buf : ByteMem) : Nat → Nat → Device → Int × Device
  | 0, _, d => (0, d)
  | n + 1, s, d =>
    let p := ataPoll d
    if p.1 ≠ 0 then (-1, p.2)
    else diskWriteLoop w lba buf n (s + 1) (p.2.store w (lba + s) (sectorOf buf s))

/-- `disk_write_sectors`: `count` sectors of `buf` to `lba` on, with the same 28 bits.
-/
def diskWriteSectors (w : Writer) (lba count : Nat) (buf : ByteMem) (d : Device) : Int × Device :=
  diskWriteLoop w (lba % 2 ^ 28) buf count 0 d

/-! ## Sectors and buffers -/

theorem Sector.mem_apply (sec : Sector) {i : Nat} (h : i < 512) : sec.mem i = sec ⟨i, h⟩ := by
  simp only [Sector.mem]
  congr 1
  ext
  simpa using Nat.mod_eq_of_lt h

theorem mem_sectorOf (buf : ByteMem) {i : Nat} (h : i < 512) : (sectorOf buf 0).mem i = buf i := by
  rw [Sector.mem_apply _ h]
  simp [sectorOf]

/-! ## One poll, one sector

Everything in `fs.c` is read and written one sector at a time, so these two equations
are all that its proofs need of the loops. -/

@[simp] theorem ataPoll_snd (d : Device) : (ataPoll d).2 = { d with clock := d.clock + 1 } := rfl

theorem ataPoll_fst (d : Device) : (ataPoll d).1 = 0 ↔ d.ok d.clock = true := by
  cases h : d.ok d.clock <;> simp [ataPoll, h]

@[simp] theorem store_sectors (d : Device) (w : Writer) (l : Nat) (sec : Sector) (x : Nat) :
    (d.store w l sec).sectors x = if x = l then sec else d.sectors x := rfl

@[simp] theorem store_ok (d : Device) (w : Writer) (l : Nat) (sec : Sector) :
    (d.store w l sec).ok = d.ok := rfl

@[simp] theorem store_clock (d : Device) (w : Writer) (l : Nat) (sec : Sector) :
    (d.store w l sec).clock = d.clock := rfl

@[simp] theorem store_written (d : Device) (w : Writer) (l : Nat) (sec : Sector) :
    (d.store w l sec).written = d.written ++ [(w, l)] := rfl

/-- A one-sector read: the buffer takes the sector, or the device failed and nothing changed. -/
theorem diskReadSectors_one (lba : Nat) (buf : ByteMem) (d : Device) :
    diskReadSectors lba 1 buf d =
      if d.ok d.clock then
        (0, buf.copy 0 (d.sectors (lba % 2 ^ 28)).mem 512, { d with clock := d.clock + 1 })
      else (-1, buf, { d with clock := d.clock + 1 }) := by
  cases h : d.ok d.clock <;> simp [diskReadSectors, diskReadLoop, ataPoll, h]

/-- A one-sector write: the sector is stored, or the device failed and nothing changed. -/
theorem diskWriteSectors_one (w : Writer) (lba : Nat) (buf : ByteMem) (d : Device) :
    diskWriteSectors w lba 1 buf d =
      if d.ok d.clock then
        (0, Device.store { d with clock := d.clock + 1 } w (lba % 2 ^ 28) (sectorOf buf 0))
      else (-1, { d with clock := d.clock + 1 }) := by
  cases h : d.ok d.clock <;> simp [diskWriteSectors, diskWriteLoop, ataPoll, h]

/-! ## What a routine may do to the device

`Wrote d d' new` is the whole frame condition of a piece of code: it logged the writes `new`, and
a sector that is not among them is what it was. -/

structure Wrote (d d' : Device) (new : List (Writer × Nat)) : Prop where
  ok : d'.ok = d.ok
  written : d'.written = d.written ++ new
  frame : ∀ x, (∀ p ∈ new, p.2 ≠ x) → d'.sectors x = d.sectors x

theorem Wrote.refl (d : Device) : Wrote d d [] := ⟨rfl, by simp, fun _ _ => rfl⟩

theorem Wrote.tick (d : Device) (c : Nat) : Wrote d { d with clock := c } [] :=
  ⟨rfl, by simp, fun _ _ => rfl⟩

/-- Two pieces of code in a row log what they write in a row. -/
theorem Wrote.trans {d d' d'' : Device} {new new' : List (Writer × Nat)} (h : Wrote d d' new)
    (h' : Wrote d' d'' new') : Wrote d d'' (new ++ new') :=
  ⟨h'.ok.trans h.ok, by rw [h'.written, h.written, List.append_assoc], fun x hx => by
    rw [h'.frame x fun p hp => hx p (List.mem_append_right _ hp),
      h.frame x fun p hp => hx p (List.mem_append_left _ hp)]⟩

theorem Wrote.store {d : Device} {w : Writer} {l : Nat} {sec : Sector} (c : Nat) :
    Wrote d (Device.store { d with clock := c } w l sec) [(w, l)] :=
  ⟨rfl, rfl, fun x hx => if_neg (Ne.symm (hx (w, l) (by simp)))⟩

theorem Wrote.good {d d' : Device} {new : List (Writer × Nat)} (h : Wrote d d' new)
    (hg : d.Good) : d'.Good := fun n => by rw [h.ok, hg n]

/-- The next `n` polls succeed: what a single call needs of the device, however it
behaves later. -/
def Device.Runs (d : Device) (n : Nat) : Prop := ∀ k < n, d.ok (d.clock + k) = true

theorem Device.Good.runs {d : Device} (h : d.Good) (n : Nat) : d.Runs n := fun _ _ => h _

theorem Device.runs_succ {d : Device} {n : Nat} :
    d.Runs (n + 1) ↔ d.ok d.clock = true ∧ Device.Runs { d with clock := d.clock + 1 } n := by
  constructor
  · intro h
    refine ⟨h 0 (by omega), fun k hk => ?_⟩
    have := h (k + 1) (by omega)
    rwa [show d.clock + (k + 1) = d.clock + 1 + k by omega] at this
  · rintro ⟨h₀, h⟩ k hk
    cases k with
    | zero => exact h₀
    | succ k =>
      have := h k (by omega)
      rwa [show d.clock + 1 + k = d.clock + (k + 1) by omega] at this

/-! ## Transfers -/

theorem diskReadLoop_dev (lba n s : Nat) (buf : ByteMem) (d : Device) :
    ∃ c, (diskReadLoop lba n s buf d).2.2 = { d with clock := c } := by
  induction n generalizing s buf d with
  | zero => exact ⟨d.clock, rfl⟩
  | succ n ih =>
    simp only [diskReadLoop]
    split
    · exact ⟨_, rfl⟩
    · exact ih (s + 1) _ (ataPoll d).2

/-- A read succeeds when its polls do, and then the buffer holds the sectors: byte `i`
of the buffer is byte `i % 512` of the sector `i / 512` further on, in the range that
was read, and what it was elsewhere. -/
theorem diskReadLoop_spec (lba n s : Nat) (buf : ByteMem) (d : Device) :
    ((diskReadLoop lba n s buf d).1 = 0 ↔ d.Runs n) ∧
    (d.Runs n → diskReadLoop lba n s buf d =
      (0, fun i => if 512 * s ≤ i ∧ i < 512 * (s + n) then
        (d.sectors (lba + i / 512)).mem (i % 512) else buf i, { d with clock := d.clock + n })) := by
  induction n generalizing s buf d with
  | zero =>
    refine ⟨⟨fun _ k hk => absurd hk (by omega), fun _ => rfl⟩, fun _ => ?_⟩
    simp only [diskReadLoop, Nat.add_zero]
    congr 2
    funext i
    rw [if_neg (by omega)]
  | succ n ih =>
    rw [Device.runs_succ]
    by_cases hp : (ataPoll d).1 = 0
    · have hn : ¬ (ataPoll d).1 ≠ 0 := fun h => h hp
      obtain ⟨h₁, h₂⟩ := ih (s + 1) (buf.copy (512 * s) (d.sectors (lba + s)).mem 512)
        { d with clock := d.clock + 1 }
      simp only [diskReadLoop, if_neg hn, ataPoll_snd]
      refine ⟨by rw [h₁, ← ataPoll_fst, and_iff_right hp], fun h => ?_⟩
      rw [h₂ h.2]
      congr 2
      · funext i
        simp only [ByteMem.copy_apply]
        -- A byte of the sector read now, of one of the rest, or of neither.
        by_cases hi : 512 * s ≤ i ∧ i < 512 * s + 512
        · have e₁ : i / 512 = s := by omega
          have e₂ : i % 512 = i - 512 * s := by omega
          rw [if_neg (by omega), if_pos hi, if_pos (by omega), e₁, e₂]
        · by_cases hi' : 512 * (s + 1) ≤ i ∧ i < 512 * (s + 1 + n)
          · rw [if_pos hi', if_pos (by omega)]
          · rw [if_neg hi', if_neg hi, if_neg (by omega)]
      · simp only [Device.mk.injEq, true_and, and_true]
        omega
    · have hn : ¬ d.ok d.clock = true := fun h => hp ((ataPoll_fst d).mpr h)
      simp only [diskReadLoop, if_pos hp]
      exact ⟨⟨fun h => absurd h (by decide), fun h => absurd h.1 hn⟩, fun h => absurd h.1 hn⟩

theorem diskReadSectors_wrote (lba count : Nat) (buf : ByteMem) (d : Device) :
    Wrote d (diskReadSectors lba count buf d).2.2 [] := by
  obtain ⟨c, hc⟩ := diskReadLoop_dev (lba % 2 ^ 28) count 0 buf d
  rw [diskReadSectors, hc]
  exact Wrote.tick d c

/-- A write logs sectors of its range, and succeeds when its polls do; then the range
holds the buffer. The first part is about every outcome: a write that fails half way has
still written inside its range only. -/
theorem diskWriteLoop_spec (w : Writer) (lba : Nat) (buf : ByteMem) (n s : Nat) (d : Device) :
    (∃ new, Wrote d (diskWriteLoop w lba buf n s d).2 new ∧
      ∀ p ∈ new, p.1 = w ∧ lba + s ≤ p.2 ∧ p.2 < lba + s + n) ∧
    ((diskWriteLoop w lba buf n s d).1 = 0 ↔ d.Runs n) ∧
    (d.Runs n → (diskWriteLoop w lba buf n s d).2.clock = d.clock + n ∧
      ∀ x, (diskWriteLoop w lba buf n s d).2.sectors x =
        if lba + s ≤ x ∧ x < lba + s + n then sectorOf buf (x - lba) else d.sectors x) := by
  induction n generalizing s d with
  | zero =>
    refine ⟨⟨[], Wrote.refl d, by simp⟩, ⟨fun _ k hk => absurd hk (by omega), fun _ => rfl⟩,
      fun _ => ⟨rfl, fun x => ?_⟩⟩
    rw [if_neg (by omega)]
    rfl
  | succ n ih =>
    rw [Device.runs_succ]
    -- The poll allows the next sector, which is stored before the rest; or it does not,
    -- and the loop ends.
    by_cases hp : (ataPoll d).1 = 0
    · have hn : ¬ (ataPoll d).1 ≠ 0 := fun h => h hp
      obtain ⟨⟨new, hw, hb⟩, h₁, h₂⟩ := ih (s + 1)
        (Device.store { d with clock := d.clock + 1 } w (lba + s) (sectorOf buf s))
      simp only [diskWriteLoop, if_neg hn, ataPoll_snd]
      refine ⟨⟨(w, lba + s) :: new, (Wrote.store _).trans hw, fun p hpm => ?_⟩, ?_, fun h => ?_⟩
      · rcases List.mem_cons.mp hpm with rfl | hpm
        · exact ⟨rfl, Nat.le_refl _, by simp⟩
        · obtain ⟨e₁, e₂, e₃⟩ := hb p hpm
          exact ⟨e₁, by omega, by omega⟩
      · rw [h₁, ← ataPoll_fst, and_iff_right hp]
        rfl
      · obtain ⟨hc, hs⟩ := h₂ h.2
        have hc' : ∀ a b : Nat, a + 1 + b = a + (b + 1) := fun a b => by omega
        refine ⟨hc.trans (hc' _ _), fun x => ?_⟩
        rw [hs x, store_sectors]
        -- The sector stored now is not among those of the rest.
        by_cases hx : x = lba + s
        · rw [if_neg (by omega), if_pos hx, if_pos (by omega), hx, Nat.add_sub_cancel_left]
        · by_cases hx' : lba + (s + 1) ≤ x ∧ x < lba + (s + 1) + n
          · rw [if_pos hx', if_pos (by omega)]
          · rw [if_neg hx', if_neg hx, if_neg (by omega)]
    · have hn : ¬ d.ok d.clock = true := fun h => hp ((ataPoll_fst d).mpr h)
      simp only [diskWriteLoop, if_pos hp]
      exact ⟨⟨[], Wrote.tick d _, by simp⟩, ⟨fun h => absurd h (by decide), fun h => absurd h.1 hn⟩,
        fun h => absurd h.1 hn⟩

end OsU
