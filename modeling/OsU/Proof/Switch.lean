import OsU.Kernel.Process

/-!
# What a context switch does

`context_switch` is a run of pushes, a save of the stack pointer, and a run of pops from
the other stack. `switchWrites` is every byte it can write, and `contextSwitch_spec`
says what the machine is afterwards: the registers, the flags and the return address
come from nine words of the new stack, in a fixed order, and memory outside
`switchWrites` is what it was.

The frame `process_create` builds is one word longer than that: it has a word for ESP
among the general registers, which `context_switch` neither pushes nor pops. So every
field above it is read one word too low (`contextSwitch_created`).

The instructions are executed one by one by `Cpu.run`, and the two runs of one
instruction are taken care of by two lemmas on a list of registers (`run_pushes`,
`run_pops`). The order of that list is the only thing about the registers that matters,
and it is never unfolded in a proof about contexts.

What is asked of a call is that its own writes do not reach what it reads: the second
argument, and the words popped.
-/

set_option autoImplicit false

namespace OsU

open WordMem

/-- The general registers in the order `context_switch` pops them. -/
def poppedRegs : List Reg := [.edi, .esi, .ebp, .ebx, .edx, .ecx, .eax]

/-- The registers after popping `rs` off a stack at `sp`. -/
def popRegs (m : WordMem) : BitVec 32 → List Reg → (Reg → BitVec 32) → Reg → BitVec 32
  | _, [], f => f
  | sp, r :: rs, f => popRegs m (sp + 4) rs fun q => if q = r then m.load sp else f q

/-! ## Runs of one instruction -/

theorem run_pushes (rs : List Reg) (rest : List Instr) (c : Cpu) :
    c.run (rs.map .push ++ rest) 0 =
      Cpu.run { c with
        esp := c.esp - BitVec.ofNat 32 (4 * rs.length)
        mem := c.mem.pushes c.esp (rs.map c.reg) } rest 0 := by
  induction rs generalizing c with
  | nil => simp [pushes]
  | cons r rs ih =>
    have he : c.esp - 4 - BitVec.ofNat 32 (4 * rs.length) =
        c.esp - BitVec.ofNat 32 (4 * (rs.length + 1)) := by bv_omega
    simp only [List.map_cons, List.cons_append, Cpu.run, Cpu.exec, Cpu.pushWord, ih, he,
      List.length_cons, pushes]

theorem run_pops (rs : List Reg) (rest : List Instr) (c : Cpu) :
    c.run (rs.map .pop ++ rest) 0 =
      Cpu.run { c with
        esp := c.esp + BitVec.ofNat 32 (4 * rs.length)
        reg := popRegs c.mem c.esp rs c.reg } rest 0 := by
  induction rs generalizing c with
  | nil => simp [popRegs]
  | cons r rs ih =>
    have he : c.esp + 4 + BitVec.ofNat 32 (4 * rs.length) =
        c.esp + BitVec.ofNat 32 (4 * (rs.length + 1)) := by bv_omega
    simp only [List.map_cons, List.cons_append, Cpu.run, Cpu.exec, Cpu.dropWord, Cpu.setReg,
      Cpu.top, ih, he, List.length_cons, popRegs]

/-- A register that is not popped keeps its value. -/
theorem popRegs_of_notMem {m : WordMem} {rs : List Reg} {sp : BitVec 32} {f : Reg → BitVec 32}
    {r : Reg} (h : r ∉ rs) : popRegs m sp rs f r = f r := by
  induction rs generalizing sp f with
  | nil => rfl
  | cons q rs ih =>
    rw [List.mem_cons, not_or] at h
    rw [popRegs, ih h.2, if_neg h.1]

/-- The register popped `n`-th has the `n`-th word of the stack. -/
theorem popRegs_get {m : WordMem} {rs : List Reg} {sp : BitVec 32} {f : Reg → BitVec 32}
    (hnd : rs.Nodup) (n : Fin rs.length) :
    popRegs m sp rs f (rs.get n) = m.load (sp + BitVec.ofNat 32 (4 * n)) := by
  induction rs generalizing sp f with
  | nil => exact n.elim0
  | cons q rs ih =>
    obtain ⟨hq, hrs⟩ := List.nodup_cons.mp hnd
    cases n using Fin.cases with
    | zero =>
      rw [popRegs, List.get_cons_zero, popRegs_of_notMem hq]
      simp
    | succ n =>
      have he : sp + 4 + BitVec.ofNat 32 (4 * n) = sp + BitVec.ofNat 32 (4 * (n + 1)) := by bv_omega
      change popRegs m (sp + 4) rs _ (rs.get n) = m.load (sp + BitVec.ofNat 32 (4 * (n + 1)))
      rw [ih hrs, he]

theorem mem_poppedRegs (r : Reg) : r ∈ poppedRegs := by cases r <;> decide

/-- `context_switch` pops every register, from seven words. -/
theorem popRegs_congr {m m' : WordMem} {sp : BitVec 32} {f g : Reg → BitVec 32}
    (h : ∀ n, n < 7 →
      m'.load (sp + BitVec.ofNat 32 (4 * n)) = m.load (sp + BitVec.ofNat 32 (4 * n))) :
    popRegs m' sp poppedRegs g = popRegs m sp poppedRegs f := by
  funext r
  obtain ⟨n, rfl⟩ := List.mem_iff_get.mp (mem_poppedRegs r)
  rw [popRegs_get (by decide), popRegs_get (by decide), h n n.isLt]

/-! ## The routine -/

/-- The bytes a switch away from a stack at `esp` can write: eight words of that stack, and
`*old_sp`. -/
def switchWrites (esp oldSp : BitVec 32) : Set (BitVec 32) :=
  below esp 32 ∪ if oldSp = 0 then ∅ else bytes oldSp 4

/-- The call `context_switch(old_sp, new_sp)`, about to run: `c` is the machine with the
return address on top of its stack. The caller does not run on the stack it switches to,
and `*old_sp` is neither one of its arguments nor part of that stack. Twelve words are
asked for, three more than are popped, because the function entered may read its own
argument. -/
structure SwitchCall (c : Cpu) (oldSp newSp : BitVec 32) : Prop where
  old : c.mem.load (c.esp + 4) = oldSp
  new : c.mem.load (c.esp + 8) = newSp
  args : Disjoint (bytes (c.esp + 8) 4) (switchWrites c.esp oldSp)
  frame : Disjoint (bytes newSp 48) (switchWrites c.esp oldSp)

/-- As much of that as the routine itself needs: of the new stack it reads nine words. -/
structure SwitchFrame (c : Cpu) (oldSp newSp : BitVec 32) : Prop where
  old : c.mem.load (c.esp + 4) = oldSp
  new : c.mem.load (c.esp + 8) = newSp
  args : Disjoint (bytes (c.esp + 8) 4) (switchWrites c.esp oldSp)
  frame : Disjoint (bytes newSp 36) (switchWrites c.esp oldSp)

theorem SwitchCall.switchFrame {c : Cpu} {oldSp newSp : BitVec 32} (h : SwitchCall c oldSp newSp) :
    SwitchFrame c oldSp newSp where
  old := h.old
  new := h.new
  args := h.args
  frame := h.frame.mono_left (bytes_mono (by decide))

/-- What `context_switch` leaves: the registers, the flags and the address to go on at
are read from the new stack, and outside of what it pushes and the one slot it stores no
memory changes. -/
structure Switched (c c' : Cpu) (oldSp newSp : BitVec 32) : Prop where
  reg : c'.reg = popRegs c.mem newSp poppedRegs c.reg
  eflags : c'.eflags = popfdFlags c.eflags (c.mem.load (newSp + 28))
  eip : c'.eip = c.mem.load (newSp + 32)
  esp : c'.esp = newSp + 36
  mem : ∀ x ∉ switchWrites c.esp oldSp, c'.mem x = c.mem x

/-- The memory when `context_switch` leaves the old stack. -/
def savedMem (c : Cpu) (oldSp : BitVec 32) : WordMem :=
  let m := c.mem.pushes c.esp (pushfdImage c.eflags :: pushedRegs.map c.reg)
  if oldSp = 0 then m else m.store oldSp (c.esp - 32)

theorem savedMem_frame {c : Cpu} {oldSp x : BitVec 32} (h : x ∉ switchWrites c.esp oldSp) :
    savedMem c oldSp x = c.mem x := by
  rw [switchWrites, Set.mem_union, not_or] at h
  have hp : c.mem.pushes c.esp (pushfdImage c.eflags :: pushedRegs.map c.reg) x = c.mem x :=
    pushes_frame h.1
  by_cases ho : oldSp = 0
  · rw [savedMem, if_pos ho, hp]
  · have hx : x ∉ bytes oldSp 4 := by rw [if_neg ho] at h; exact h.2
    rw [savedMem, if_neg ho, store_frame hx, hp]

theorem load_savedMem {c : Cpu} {oldSp a : BitVec 32}
    (h : Disjoint (bytes a 4) (switchWrites c.esp oldSp)) :
    (savedMem c oldSp).load a = c.mem.load a :=
  load_congr fun _ hx => savedMem_frame (Set.disjoint_left.mp h hx)

/-- The arguments of a call lie above what its pushes reach. -/
theorem arg_not_below (esp : BitVec 32) {d : BitVec 32} (hd : d.toNat ≤ 8) :
    Disjoint (bytes (esp + d) 4) (below esp 32) :=
  (bytes_disjoint_below (by decide)).mono_left (bytes_add_subset (Nat.add_le_add_right hd 4))

/-- The middle of the routine: `esp` goes to `*old_sp`, unless that is null, and comes from
`new_sp`. -/
def swapEsp : List Instr := [.load .eax 36, .test .eax, .jz 1, .saveEsp .eax, .loadEsp 40]

theorem contextSwitch_eq : contextSwitch =
    Instr.pushfd :: (pushedRegs.map Instr.push ++
      (swapEsp ++ (poppedRegs.map Instr.pop ++ [Instr.popfd, Instr.ret]))) := rfl

/-- The routine up to the first pop: the old context is saved and `esp` is the new one.
EAX has been used as a scratch register and the flags of the `test` are whatever they
are; both are popped again, and so they are bound by an existential here. -/
theorem run_save {c : Cpu} {oldSp newSp : BitVec 32} (h : SwitchFrame c oldSp newSp)
    (rest : List Instr) :
    ∃ f g, (∀ w, popfdFlags f w = popfdFlags c.eflags w) ∧
      c.run (Instr.pushfd :: (pushedRegs.map Instr.push ++ (swapEsp ++ rest))) 0 =
      Cpu.run { c with
        reg := g, esp := newSp, eflags := f, mem := savedMem c oldSp } rest 0 := by
  have hpush : c.mem.pushes c.esp (pushfdImage c.eflags :: pushedRegs.map c.reg) =
      (c.mem.store (c.esp - 4) (pushfdImage c.eflags)).pushes (c.esp - 4)
        (pushedRegs.map c.reg) := by rw [pushes]
  have hesp : c.esp - 4 - BitVec.ofNat 32 (4 * pushedRegs.length) = c.esp - 32 := by
    simp only [pushedRegs, List.length_cons, List.length_nil]
    bv_omega
  -- the first argument, read past the pushes
  have hold : (c.mem.pushes c.esp (pushfdImage c.eflags :: pushedRegs.map c.reg)).load
      (c.esp - 32 + 36) = oldSp := by
    have he : c.esp - 32 + 36 = c.esp + 4 := by bv_omega
    rw [he, load_pushes_frame (arg_not_below c.esp (by decide)), h.old]
  -- the second, read past the store to `*old_sp` too
  have hnew : (savedMem c oldSp).load (c.esp - 32 + 40) = newSp := by
    have he : c.esp - 32 + 40 = c.esp + 8 := by bv_omega
    rw [he, load_savedMem h.args, h.new]
  refine ⟨testFlags c.eflags oldSp, fun r => if r = .eax then oldSp else c.reg r,
    popfdFlags_testFlags c.eflags oldSp, ?_⟩
  by_cases ho : oldSp = 0
  · have hz : testFlags c.eflags oldSp &&& zeroFlag ≠ 0 := fun hz =>
      (testFlags_zero _ _).mp hz ho
    rw [savedMem, if_pos ho] at hnew
    simp only [swapEsp, List.cons_append, List.nil_append, Cpu.run, Cpu.exec, Cpu.pushWord,
      run_pushes, Cpu.setReg, hesp, ← hpush, hold,
      if_neg hz, hnew, savedMem, if_pos ho, if_true]
  · have hz : testFlags c.eflags oldSp &&& zeroFlag = 0 := (testFlags_zero _ _).mpr ho
    rw [savedMem, if_neg ho] at hnew
    simp only [swapEsp, List.cons_append, List.nil_append, Cpu.run, Cpu.exec, Cpu.pushWord,
      run_pushes, Cpu.setReg, hesp, ← hpush, hold,
      if_pos hz, hnew, savedMem, if_neg ho, if_true]

theorem load_frame {c : Cpu} {oldSp newSp : BitVec 32} (h : SwitchFrame c oldSp newSp)
    {d : BitVec 32} (hd : d.toNat ≤ 32) :
    (savedMem c oldSp).load (newSp + d) = c.mem.load (newSp + d) :=
  load_savedMem (h.frame.mono_left (bytes_add_subset (Nat.add_le_add_right hd 4)))

/-- The routine in closed form. -/
theorem run_contextSwitch {c : Cpu} {oldSp newSp : BitVec 32} (h : SwitchFrame c oldSp newSp) :
    c.run contextSwitch 0 = { c with
      reg := popRegs c.mem newSp poppedRegs c.reg
      esp := newSp + 36
      eip := c.mem.load (newSp + 32)
      eflags := popfdFlags c.eflags (c.mem.load (newSp + 28))
      mem := savedMem c oldSp } := by
  obtain ⟨f, g, hf, hrun⟩ := run_save h (poppedRegs.map Instr.pop ++ [Instr.popfd, Instr.ret])
  have hlen : BitVec.ofNat 32 (4 * poppedRegs.length) = 28 := rfl
  have h32 : newSp + 28 + 4 = newSp + 32 := by bv_omega
  have h36 : newSp + 32 + 4 = newSp + 36 := by bv_omega
  have hregs : popRegs (savedMem c oldSp) newSp poppedRegs g =
      popRegs c.mem newSp poppedRegs c.reg := by
    refine popRegs_congr fun n hn => load_frame h ?_
    rw [BitVec.toNat_ofNat]
    omega
  rw [contextSwitch_eq, hrun, run_pops]
  simp only [Cpu.run, Cpu.exec, Cpu.dropWord, Cpu.top, hlen, h32, h36, hf, hregs,
    load_frame h (d := 28) (by decide), load_frame h (d := 32) (by decide)]

theorem contextSwitch_spec {c : Cpu} {oldSp newSp : BitVec 32} (h : SwitchCall c oldSp newSp) :
    Switched c (c.run contextSwitch 0) oldSp newSp := by
  rw [run_contextSwitch h.switchFrame]
  exact ⟨rfl, rfl, rfl, rfl, fun x hx => savedMem_frame hx⟩

/-- **`*old_sp` is the stack pointer of the context switched away from**, below the eight words
pushed. -/
theorem contextSwitch_saves {c : Cpu} {oldSp newSp : BitVec 32} (h : SwitchCall c oldSp newSp)
    (ho : oldSp ≠ 0) : (c.run contextSwitch 0).mem.load oldSp = c.esp - 32 := by
  rw [run_contextSwitch h.switchFrame]
  change (savedMem c oldSp).load oldSp = c.esp - 32
  rw [savedMem, if_neg ho, load_store]

/-! ## Entering a process -/

/-- The machine has just entered `process_wrapper` with interrupts on and `entry` as its
argument, which a cdecl function reads above its return address. -/
structure EntersWrapper (img : Image) (entry : BitVec 32) (c : Cpu) : Prop where
  eflags : c.eflags = 0x202
  eip : c.eip = img.processWrapper
  arg : c.mem.load (c.esp + 4) = entry

/-- The stacks on which a switch does enter `process_wrapper`: EFLAGS, the address and the
argument are the eighth, ninth and eleventh word. -/
theorem enters_iff {c : Cpu} {oldSp newSp : BitVec 32} (h : SwitchCall c oldSp newSp)
    (img : Image) (entry : BitVec 32) :
    EntersWrapper img entry (c.run contextSwitch 0) ↔
      popfdFlags c.eflags (c.mem.load (newSp + 28)) = 0x202 ∧
      c.mem.load (newSp + 32) = img.processWrapper ∧ c.mem.load (newSp + 40) = entry := by
  have hs := contextSwitch_spec h
  have harg : (c.run contextSwitch 0).mem.load ((c.run contextSwitch 0).esp + 4) =
      c.mem.load (newSp + 40) := by
    have he : newSp + 36 + 4 = newSp + 40 := by bv_omega
    rw [hs.esp, he]
    exact load_congr fun x hx =>
      hs.mem x (Set.disjoint_left.mp h.frame (bytes_add_subset (by decide) hx))
  constructor
  · intro he
    exact ⟨hs.eflags ▸ he.eflags, hs.eip ▸ he.eip, harg ▸ he.arg⟩
  · rintro ⟨hf, hi, ha⟩
    exact ⟨hs.eflags.trans hf, hs.eip.trans hi, harg.trans ha⟩

/-- **The created frame is one word out.** A switch to a stack `process_create` built
takes EFLAGS from the word meant for EAX and the return address from the word meant for
EFLAGS. So EIP becomes 0x202, which is no code of the kernel. -/
theorem contextSwitch_created {img : Image} {i : Fin 16} {pid : BitVec 32} {name : List UInt8}
    {entry : BitVec 32} {c : Cpu} {oldSp : BitVec 32}
    (h : SwitchCall c oldSp (createdProcess img i pid name entry).stackPtr)
    (hm : StackHeld img i (createdProcess img i pid name entry) c.mem) :
    (c.run contextSwitch 0).eflags = popfdFlags c.eflags 0 ∧
      (c.run contextSwitch 0).eip = 0x202 := by
  have hs := contextSwitch_spec h
  have hsp : (createdProcess img i pid name entry).stackPtr = img.stackAddr i 1012 :=
    congrArg (img.stackAddr i) (createdStack_sp img entry)
  have hframe := createdStack_frame img entry
  simp only [List.map_cons, List.cons.injEq] at hframe
  have h28 : c.mem.load (img.stackAddr i 1012 + 28) = 0 := by
    have ha : img.stackAddr i 1019 = img.stackAddr i 1012 + 28 := stackAddr_add img i 7 rfl
    rw [← ha, hm 1019 1012 hsp (by decide)]
    exact hframe.2.2.2.2.2.2.2.1
  have h32 : c.mem.load (img.stackAddr i 1012 + 32) = 0x202 := by
    have ha : img.stackAddr i 1020 = img.stackAddr i 1012 + 32 := stackAddr_add img i 8 rfl
    rw [← ha, hm 1020 1012 hsp (by decide)]
    exact hframe.2.2.2.2.2.2.2.2.1
  rw [hs.eflags, hs.eip, hsp, h28, h32]
  exact ⟨rfl, rfl⟩

/-- IF stays off when the word popped into EFLAGS is zero. -/
theorem popfdFlags_zero_ne (f : BitVec 32) : popfdFlags f 0 ≠ 0x202 := by
  intro h
  have hbit := congrArg (BitVec.getLsbD · 9) h
  simp [popfdFlags, keptMask] at hbit

/-- A process the table has just been given is never entered through `process_wrapper`.
Whichever slot, name and entry, and from whatever context the switch is made. -/
theorem created_never_enters {img : Image} {k : Procs} {i : Fin 16} {name : List UInt8}
    {entry : BitVec 32} (hfree : k.findFreeSlot = some i) {c : Cpu} {oldSp : BitVec 32}
    (hcall : SwitchCall c oldSp ((processCreate img k name entry).2.table i).stackPtr)
    (hheld : StackHeld img i ((processCreate img k name entry).2.table i) c.mem) :
    ¬ EntersWrapper img entry (c.run contextSwitch 0) := by
  rw [processCreate_table hfree] at hcall hheld
  intro he
  exact popfdFlags_zero_ne c.eflags ((contextSwitch_created hcall hheld).1.symm.trans he.eflags)

/-! ### A first dispatch -/

theorem stackAddr_inj {img : Image} {i : Fin 16} {j k : Fin 1024}
    (h : img.stackAddr i j = img.stackAddr i k) : j = k := by
  rw [Image.stackAddr, Image.stackAddr, BitVec.add_right_inj] at h
  have hv := congrArg BitVec.toNat h
  rw [BitVec.toNat_ofNat, BitVec.toNat_ofNat] at hv
  omega

/-- A kernel with its table at 1 MiB. -/
def demoImage : Image := ⟨0x100000, 0x2000⟩

/-- The table after one `process_create`, with entry function 0x3000. -/
def demoProcs : Procs := (processCreate demoImage processInit [0x70] 0x3000).2

/-- The table has slots. -/
theorem slots_neZero : NeZero 16 := ⟨by decide⟩

/-- A stack has words. -/
theorem words_neZero : NeZero 1024 := ⟨by decide⟩

section

attribute [local instance] slots_neZero words_neZero

/-- The machine as `schedule` calls `context_switch(&old, next->stack_ptr)` for the first time:
on a stack at 0x9000, with the local `old` at 0x9010. -/
def demoCpu : Cpu where
  reg := fun _ => 0
  esp := 0x9000
  eip := 0
  eflags := 0x202
  mem := ((pushes (fun _ => 0) (demoImage.stackAddr 0 1023 + 4)
    (createdWords demoImage 0x3000 ++ [0])).store 0x9004 0x9010).store 0x9008
      (demoImage.stackAddr 0 1012)

end

theorem demoCpu_call : SwitchCall demoCpu 0x9010 (demoProcs.table 0).stackPtr where
  old := by decide +kernel
  new := by decide +kernel
  args := by
    refine Set.disjoint_union_right.mpr ⟨arg_not_below demoCpu.esp (by decide), ?_⟩
    exact bytes_disjoint (by decide) (by decide)
  frame := by
    have hsp : (demoProcs.table 0).stackPtr = 0x101000 := by decide +kernel
    rw [hsp]
    refine Set.disjoint_union_right.mpr ⟨?_, bytes_disjoint (by decide) (by decide)⟩
    refine Set.disjoint_left.mpr fun x hx => ?_
    rw [mem_bytes] at hx
    rw [mem_below, demoCpu]
    bv_omega

theorem demoCpu_held : StackHeld demoImage 0 (demoProcs.table 0) demoCpu.mem := by
  have hsp : (demoProcs.table 0).stackPtr = demoImage.stackAddr 0 1012 := by decide +kernel
  have hwords : ∀ j : Fin 1024, 1012 ≤ j →
      demoCpu.mem.load (demoImage.stackAddr 0 j) = (demoProcs.table 0).stack j := by
    decide +kernel
  intro j sp h hj
  rw [← stackAddr_inj (hsp.symm.trans h)] at hj
  exact hwords j hj

theorem created_never_enters_demo :
    ¬ EntersWrapper demoImage 0x3000 (demoCpu.run contextSwitch 0) :=
  @created_never_enters demoImage processInit 0 [0x70] 0x3000 rfl demoCpu 0x9010 demoCpu_call
    demoCpu_held

/-- The frame of the first process is not the one its dispatch reads. -/
theorem not_created_enters :
    ¬ ∀ (img : Image) (k : Procs) (i : Fin 16) (name : List UInt8) (entry : BitVec 32) (c : Cpu)
      (oldSp : BitVec 32), k.findFreeSlot = some i →
      SwitchCall c oldSp ((processCreate img k name entry).2.table i).stackPtr →
      StackHeld img i ((processCreate img k name entry).2.table i) c.mem →
      EntersWrapper img entry (c.run contextSwitch 0) := by
  intro h
  have he := h demoImage processInit 0 [0x70] 0x3000 demoCpu 0x9010 rfl demoCpu_call demoCpu_held
  have hf : (demoCpu.run contextSwitch 0).eflags ≠ 0x202 := by decide +kernel
  exact hf he.eflags

end OsU
