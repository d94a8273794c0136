import OsU.Proof.Switch

/-!
# Contexts that are switched back to

Several contexts take turns on one CPU, each on a stack of its own. Between two switches
the one that runs may do what it likes to the registers, the flags and the memory, but
for the stacks of the contexts that wait and the words their stack pointers are kept in.
A context that waits is `Parked`: the nine words `context_switch` pops are on its stack,
as it pushed them, and the pointer to them is where `old_sp` was. So the switch back to
it is a return from its own call (`resumes_unchanged`).

EFLAGS comes back whole only for flags that `pushfd` stores and `popfd` loads. The
others do not change at privilege level 0 (`KernelFlags`).

The contexts are any type, and their stacks any disjoint sets of addresses (`Stacks`).
The process table is one instance, with a slot for each context and the stack inside the
slot (`Image.stacks`), and the addresses are taken modulo 2 ^ 32, as the CPU takes them.
What is assumed of the code between two switches is in `Turn.work`, and of a caller of
`context_switch` in `Calls`: the two arguments, and room on its stack for what is
pushed.

A context that has never run has nothing to resume; it is entered by a frame on its own
stack, about which nothing is said but where it is.
-/

set_option autoImplicit false

namespace OsU

open WordMem

/-- The stacks of a set of contexts, apart from each other, and the words their stack pointers are
saved in. -/
structure Stacks (ι : Type) where
  stack : ι → Set (BitVec 32)
  slot : ι → BitVec 32
  stack_apart : ∀ {i j}, i ≠ j → Disjoint (stack i) (stack j)
  slot_apart : ∀ {i j}, i ≠ j → Disjoint (bytes (slot i) 4) (bytes (slot j) 4)
  slot_off : ∀ i j, Disjoint (bytes (slot i) 4) (stack j)
  slot_ne_zero : ∀ i, slot i ≠ 0

/-- EFLAGS between two instructions of the kernel: VM, RF, VIF and VIP are clear, and of the
reserved bits only bit 1 stands. -/
def KernelFlags (f : BitVec 32) : Prop := f &&& ~~~popfdMask = 2

instance (f : BitVec 32) : Decidable (KernelFlags f) := inferInstanceAs (Decidable (_ = _))

/-- The CPU, the context on it, and for each context that waits what it was when it
called `context_switch`. The last is a ghost: it is what the statement compares with,
and no instruction reads it. -/
structure Turns (ι : Type) where
  cpu : Cpu
  running : ι
  parked : ι → Option Cpu

variable {ι : Type}

namespace Stacks

/-- Context `i` is at the first instruction of `context_switch(&i->stack_ptr, j->stack_ptr)`, and
its stack has room for what is pushed. -/
structure Calls (L : Stacks ι) (c : Cpu) (i j : ι) : Prop where
  oldSp : c.mem.load (c.esp + 4) = L.slot i
  newSp : c.mem.load (c.esp + 8) = c.mem.load (L.slot j)
  room : bytes (c.esp - 32) 44 ⊆ L.stack i

/-- The context on the CPU calls `context_switch` for `j`. -/
def switchTo [DecidableEq ι] (j : ι) (m : Turns ι) : Turns ι where
  cpu := m.cpu.run contextSwitch 0
  running := j
  parked := fun k => if k = m.running then some m.cpu else if k = j then none else m.parked k

/-- One turn, or a part of it. A context that has not run yet is entered by a frame of its own
stack, whatever it holds. -/
inductive Turn [DecidableEq ι] (L : Stacks ι) : Turns ι → Turns ι → Prop where
  | work {m : Turns ι} (c : Cpu) (hflags : KernelFlags c.eflags)
      (hkeep : ∀ j, m.parked j ≠ none → ∀ x ∈ L.stack j ∪ bytes (L.slot j) 4,
        c.mem x = m.cpu.mem x) :
      Turn L m { m with cpu := c }
  | switch {m : Turns ι} (j : ι) (hj : j ≠ m.running) (hcall : L.Calls m.cpu m.running j)
      (hfresh : m.parked j = none → bytes (m.cpu.mem.load (L.slot j)) 36 ⊆ L.stack j) :
      Turn L m (switchTo j m)

/-- What `Turn` keeps of a context that waits, with `c` the machine at its call: the
stack pointer is in its word, 32 bytes below where it was, and the stack has what the
call left on it. -/
structure Parked (L : Stacks ι) (m : WordMem) (j : ι) (c : Cpu) : Prop where
  flags : KernelFlags c.eflags
  room : bytes (c.esp - 32) 44 ⊆ L.stack j
  saved : m.load (L.slot j) = c.esp - 32
  kept : ∀ x ∈ L.stack j, m x = savedMem c (L.slot j) x

/-- The flags of the kernel, and every context that waits is parked. -/
structure Sound (L : Stacks ι) (m : Turns ι) : Prop where
  flags : KernelFlags m.cpu.eflags
  running : m.parked m.running = none
  parked : ∀ j c, m.parked j = some c → L.Parked m.cpu.mem j c

/-- `c'` is back from the call of `context_switch` that `c` made in context `j`: the
registers are those of the call, the stack is that of the caller behind it, and nothing
above was written. -/
structure Resumed (L : Stacks ι) (j : ι) (c c' : Cpu) : Prop where
  reg : c'.reg = c.reg
  eflags : c'.eflags = c.eflags
  esp : c'.esp = c.esp + 4
  eip : c'.eip = c.mem.load c.esp
  stack : ∀ x ∈ L.stack j, x ∉ below c.esp 32 → c'.mem x = c.mem x

/-! ## The flags -/

/-- What `pushfd` stores of the kernel's flags, `popfd` loads. -/
theorem popfdFlags_pushfdImage {f v : BitVec 32} (hf : KernelFlags f) (hv : KernelFlags v) :
    popfdFlags f (pushfdImage v) = v := by
  have hkept : f &&& keptMask = 0 := by
    have hmask : keptMask = ~~~popfdMask &&& keptMask := by decide
    rw [hmask, ← BitVec.and_assoc, hf]
    decide
  have himage : pushfdImage v &&& popfdMask = v &&& popfdMask := by
    rw [pushfdImage, BitVec.and_assoc]
    rfl
  have hones : popfdMask ||| ~~~popfdMask = BitVec.allOnes 32 := by decide
  calc popfdFlags f (pushfdImage v)
      = v &&& popfdMask ||| v &&& ~~~popfdMask := by
        rw [popfdFlags, hkept, himage, hv]
        exact congrArg (· ||| 2) (BitVec.zero_or)
    _ = v := by rw [← BitVec.and_or_distrib_left, hones, BitVec.and_allOnes]

/-- Whatever `popfd` loads, the flags are the kernel's. -/
theorem kernelFlags_popfdFlags {f : BitVec 32} (hf : KernelFlags f) (v : BitVec 32) :
    KernelFlags (popfdFlags f v) := by
  have hkept : f &&& keptMask &&& ~~~popfdMask = 0 := by
    rw [BitVec.and_assoc, BitVec.and_comm keptMask, ← BitVec.and_assoc, hf]
    decide
  have hloaded : v &&& popfdMask &&& ~~~popfdMask = 0 := by
    rw [BitVec.and_assoc, BitVec.and_not_self]
    exact BitVec.and_zero
  rw [KernelFlags, popfdFlags, BitVec.and_or_distrib_right, BitVec.and_or_distrib_right, hkept,
    hloaded]
  decide

/-! ## The call -/

section Call

variable {L : Stacks ι} {c : Cpu} {i j : ι}

/-- What a switch writes is on the stack it leaves, or the word for its stack pointer. -/
theorem Calls.writes (h : L.Calls c i j) :
    switchWrites c.esp (L.slot i) ⊆ L.stack i ∪ bytes (L.slot i) 4 := by
  rw [switchWrites, if_neg (L.slot_ne_zero i)]
  refine Set.union_subset_union_left _ fun x hx => h.room ?_
  rw [mem_below] at hx
  rw [mem_bytes]
  bv_omega

/-- Another stack is out of its reach. -/
theorem Calls.stack_apart (h : L.Calls c i j) {k : ι} (hk : k ≠ i) :
    Disjoint (L.stack k) (switchWrites c.esp (L.slot i)) := by
  refine Disjoint.mono_right h.writes (Set.disjoint_union_right.mpr ⟨L.stack_apart hk, ?_⟩)
  exact (L.slot_off i k).symm

/-- So is the word of another context. -/
theorem Calls.slot_apart (h : L.Calls c i j) {k : ι} (hk : k ≠ i) :
    Disjoint (bytes (L.slot k) 4) (switchWrites c.esp (L.slot i)) :=
  Disjoint.mono_right h.writes (Set.disjoint_union_right.mpr ⟨L.slot_off k i, L.slot_apart hk⟩)

/-- The call is one whose effect is known, if what it pops is on the stack of `j`. -/
theorem Calls.switchFrame (h : L.Calls c i j) (hij : j ≠ i)
    (hframe : bytes (c.mem.load (L.slot j)) 36 ⊆ L.stack j) :
    SwitchFrame c (L.slot i) (c.mem.load (L.slot j)) where
  old := h.oldSp
  new := h.newSp
  args := by
    have harg : bytes (c.esp + 8) 4 ⊆ L.stack i := by
      have he : c.esp + 8 = c.esp - 32 + 40 := by bv_omega
      rw [he]
      exact (bytes_add_subset (by decide)).trans h.room
    rw [switchWrites, if_neg (L.slot_ne_zero i)]
    refine Set.disjoint_union_right.mpr ⟨arg_not_below c.esp (by decide), ?_⟩
    exact (L.slot_off i i).symm.mono_left harg
  frame := (h.stack_apart hij).mono_left hframe

end Call

/-! ## A context that waits -/

/-- The words a call of `context_switch` pushes. -/
def pushedWords (c : Cpu) : List (BitVec 32) := pushfdImage c.eflags :: pushedRegs.map c.reg

theorem length_pushedWords (c : Cpu) : (pushedWords c).length = 8 := rfl

section Waiting

variable {L : Stacks ι} {m : WordMem} {j : ι} {c : Cpu}

/-- On the stack there is what the call found and what it pushed. -/
theorem Parked.mem (h : L.Parked m j c) {x : BitVec 32} (hx : x ∈ L.stack j) :
    m x = c.mem.pushes c.esp (pushedWords c) x := by
  have hoff : x ∉ bytes (L.slot j) 4 := Set.disjoint_right.mp (L.slot_off j j) hx
  rw [h.kept x hx, savedMem, if_neg (L.slot_ne_zero j), store_frame hoff, pushedWords]

theorem Parked.load (h : L.Parked m j c) {d : BitVec 32} (hd : d.toNat ≤ 40) :
    m.load (c.esp - 32 + d) = (c.mem.pushes c.esp (pushedWords c)).load (c.esp - 32 + d) :=
  load_congr fun _ hx => h.mem (h.room (bytes_add_subset (Nat.add_le_add_right hd 4) hx))

/-- The words, the last that was pushed on top. -/
theorem Parked.load_pushed (h : L.Parked m j c) {d : BitVec 32} (k : Fin (pushedWords c).length)
    (hd : c.esp - 32 + d = c.esp - BitVec.ofNat 32 (4 * (k + 1))) (hle : d.toNat ≤ 40) :
    m.load (c.esp - 32 + d) = (pushedWords c).get k := by
  have hlen : 4 * (pushedWords c).length < 2 ^ 32 := by
    rw [length_pushedWords]
    decide
  rw [h.load hle, hd, load_pushes hlen]

theorem Parked.flagsWord (h : L.Parked m j c) :
    m.load (c.esp - 32 + 28) = pushfdImage c.eflags :=
  h.load_pushed ⟨0, Nat.succ_pos _⟩ (by bv_omega) (by decide)

/-- The registers come back in the order opposite to the one they were pushed in. -/
theorem Parked.regs (h : L.Parked m j c) (f : Reg → BitVec 32) :
    popRegs m (c.esp - 32) poppedRegs f = c.reg := by
  funext r
  obtain ⟨n, rfl⟩ := List.mem_iff_get.mp (mem_poppedRegs r)
  have hn : (n : Nat) < 7 := n.isLt
  have hk : 7 - (n : Nat) < (pushedWords c).length := by
    rw [length_pushedWords]
    omega
  have hrev : (pushedWords c).get ⟨7 - n, hk⟩ = c.reg (poppedRegs.get n) := by
    fin_cases n <;> rfl
  rw [popRegs_get (by decide), ← hrev]
  refine h.load_pushed ⟨7 - n, hk⟩ ?_ ?_
  · dsimp only
    bv_omega
  · rw [BitVec.toNat_ofNat]
    omega

/-- Above what was pushed is the return address. -/
theorem Parked.retWord (h : L.Parked m j c) : m.load (c.esp - 32 + 32) = c.mem.load c.esp := by
  have hsp : c.esp - 32 + 32 = c.esp := by bv_omega
  have hoff : Disjoint (bytes c.esp 4) (below c.esp (4 * (pushedWords c).length)) := by
    rw [length_pushedWords]
    exact bytes_disjoint_below (by decide)
  rw [h.load (by decide), hsp, load_pushes_frame hoff]

theorem Parked.frame_subset (h : L.Parked m j c) : bytes (c.esp - 32) 36 ⊆ L.stack j :=
  (bytes_mono (by decide)).trans h.room

/-- It waits on as long as its stack and its word are left alone. -/
theorem Parked.frame (h : L.Parked m j c) {m' : WordMem}
    (hkeep : ∀ x ∈ L.stack j ∪ bytes (L.slot j) 4, m' x = m x) : L.Parked m' j c where
  flags := h.flags
  room := h.room
  saved := by
    rw [← h.saved]
    exact load_congr fun x hx => hkeep x (Set.mem_union_right _ hx)
  kept := fun x hx => (hkeep x (Set.mem_union_left _ hx)).trans (h.kept x hx)

end Waiting

/-! ## Turns -/

section Turns

variable {L : Stacks ι} {m : Turns ι}

/-- A switch pops a frame that is on the stack of the context it goes to. -/
theorem Sound.switchFrame (h : L.Sound m) {j : ι} (hj : j ≠ m.running)
    (hcall : L.Calls m.cpu m.running j)
    (hfresh : m.parked j = none → bytes (m.cpu.mem.load (L.slot j)) 36 ⊆ L.stack j) :
    SwitchFrame m.cpu (L.slot m.running) (m.cpu.mem.load (L.slot j)) := by
  refine hcall.switchFrame hj ?_
  cases hp : m.parked j with
  | none => exact hfresh hp
  | some c =>
    rw [(h.parked j c hp).saved]
    exact (h.parked j c hp).frame_subset

/-- **The switch back.** The instructions of `context.asm` pop the words in the order
opposite to the one they were pushed in, and return to the address under them. -/
theorem Sound.resumes (h : L.Sound m) {j : ι} {c : Cpu} (hj : m.parked j = some c)
    (hcall : L.Calls m.cpu m.running j) : L.Resumed j c (m.cpu.run contextSwitch 0) := by
  have hne : j ≠ m.running := by
    rintro rfl
    exact nomatch hj.symm.trans h.running
  have hp := h.parked j c hj
  have hrun := run_contextSwitch (h.switchFrame hne hcall fun hn => nomatch hj.symm.trans hn)
  rw [hp.saved] at hrun
  rw [hrun]
  constructor
  · exact hp.regs _
  · dsimp only
    rw [hp.flagsWord]
    exact popfdFlags_pushfdImage h.flags hp.flags
  · dsimp only
    bv_omega
  · exact hp.retWord
  · intro x hx hoff
    have hsame : savedMem m.cpu (L.slot m.running) x = m.cpu.mem x :=
      savedMem_frame (Set.disjoint_left.mp (hcall.stack_apart hne) hx)
    exact (hsame.trans (hp.mem hx)).trans (pushes_frame hoff)

variable [DecidableEq ι]

/-- The context that calls is parked, and the others that wait are left alone. -/
theorem Sound.switchTo (h : L.Sound m) {j : ι} (hj : j ≠ m.running)
    (hcall : L.Calls m.cpu m.running j)
    (hfresh : m.parked j = none → bytes (m.cpu.mem.load (L.slot j)) 36 ⊆ L.stack j) :
    L.Sound (Stacks.switchTo j m) := by
  have hrun := run_contextSwitch (h.switchFrame hj hcall hfresh)
  refine ⟨?_, ?_, fun k c hk => ?_⟩
  · change KernelFlags (m.cpu.run contextSwitch 0).eflags
    rw [hrun]
    exact kernelFlags_popfdFlags h.flags _
  · exact (if_neg hj).trans (if_pos rfl)
  · change L.Parked (m.cpu.run contextSwitch 0).mem k c
    rw [hrun]
    dsimp only
    -- The stack that is left is parked as it is now; a stack that was parked before is
    -- not touched, being apart from it.
    by_cases hki : k = m.running
    · obtain rfl : m.cpu = c := Option.some.inj ((if_pos hki).symm.trans hk)
      subst hki
      refine ⟨h.flags, hcall.room, ?_, fun x _ => rfl⟩
      rw [savedMem, if_neg (L.slot_ne_zero _), load_store]
    · have hk' : (if k = j then none else m.parked k) = some c := (if_neg hki).symm.trans hk
      split at hk'
      · cases hk'
      · refine (h.parked k c hk').frame fun x hx => savedMem_frame ?_
        rcases hx with hx | hx
        · exact Set.disjoint_left.mp (hcall.stack_apart hki) hx
        · exact Set.disjoint_left.mp (hcall.slot_apart hki) hx

/-- Every turn keeps the contexts that wait. Work leaves their stacks and words alone by
assumption; a switch writes to the stack it leaves and to one word, and both are the
caller's (`Calls.writes`). -/
theorem Sound.turn (h : L.Sound m) {m' : Turns ι} (ht : L.Turn m m') : L.Sound m' := by
  cases ht with
  | work c hflags hkeep =>
    refine ⟨hflags, h.running, fun j c' hj => (h.parked j c' hj).frame (hkeep j ?_)⟩
    rw [hj]
    exact nofun
  | switch j hj hcall hfresh => exact h.switchTo hj hcall hfresh

theorem Sound.run (h : L.Sound m) {m' : Turns ι} (hrun : Relation.ReflTransGen L.Turn m m') :
    L.Sound m' := by
  induction hrun with
  | refl => exact h
  | tail _ ht ih => exact ih.turn ht

/-- **Suspended contexts resume unchanged.** In every run, the switch to a context that waits brings
back its registers, its flags, its stack pointer and its stack, behind its own call. -/
theorem resumes_unchanged (L : Stacks ι) {m₀ m : Turns ι} (hflags : KernelFlags m₀.cpu.eflags)
    (hstart : ∀ j, m₀.parked j = none) (hrun : Relation.ReflTransGen L.Turn m₀ m) {j : ι} {c : Cpu}
    (hj : m.parked j = some c) (hcall : L.Calls m.cpu m.running j) :
    L.Resumed j c (m.cpu.run contextSwitch 0) := by
  have h₀ : L.Sound m₀ := ⟨hflags, hstart _, fun j c hj => nomatch (hstart j).symm.trans hj⟩
  exact (h₀.run hrun).resumes hj hcall

end Turns

end Stacks

/-! ## The process table -/

/-- `&process_table[i].stack_ptr` -/
def Image.slotAddr (img : Image) (i : Fin 16) : BitVec 32 :=
  img.processTable + BitVec.ofNat 32 (4196 * i + 4144)

section

attribute [local instance] slots_neZero words_neZero

/-- The stacks in the process table: 4096 bytes in each of the 16 entries, and the field
`stack_ptr` behind them. That no two overlap follows from the size of an entry. -/
def Image.stacks (img : Image) (h : ∀ i, img.slotAddr i ≠ 0) : Stacks (Fin 16) where
  stack i := bytes (img.stackAddr i 0) 4096
  slot := img.slotAddr
  stack_apart := by
    intro i j hij
    rcases lt_or_gt_of_ne (Fin.val_ne_of_ne hij) with hlt | hlt
    · exact bytes_disjoint_of_le (by simp; omega) (by simp; omega)
    · exact (bytes_disjoint_of_le (by simp; omega) (by simp; omega)).symm
  slot_apart := by
    intro i j hij
    rcases lt_or_gt_of_ne (Fin.val_ne_of_ne hij) with hlt | hlt
    · exact bytes_disjoint_of_le (by omega) (by omega)
    · exact (bytes_disjoint_of_le (by omega) (by omega)).symm
  slot_off := by
    intro i j
    rcases Nat.lt_or_ge i j with hlt | hge
    · exact bytes_disjoint_of_le (by simp; omega) (by simp; omega)
    · exact (bytes_disjoint_of_le (by simp; omega) (by omega)).symm
  slot_ne_zero := h

/-- The stacks of a kernel with its table at 1 MiB. -/
def demoStacks : Stacks (Fin 16) := demoImage.stacks (by decide)

/-- Slot 0, about to switch to slot 1, where a frame of zeros waits under the call of slot 1 that
switches back. -/
def demoCaller : Cpu where
  reg := fun r => if r = .ebx then 7 else 3
  esp := demoImage.stackAddr 0 500
  eip := 0
  eflags := 0x246
  mem :=
    let m : WordMem := fun _ => 0
    let m := m.store (demoImage.stackAddr 0 501) (demoImage.slotAddr 0)
    let m := m.store (demoImage.stackAddr 0 502) (demoImage.stackAddr 1 300)
    let m := m.store (demoImage.slotAddr 1) (demoImage.stackAddr 1 300)
    let m := m.store (demoImage.stackAddr 1 310) (demoImage.slotAddr 1)
    m.store (demoImage.stackAddr 1 311) (demoImage.stackAddr 0 492)

end

/-- There and back. -/
theorem resumes_unchanged_demo : demoStacks.Resumed 0 demoCaller
    ((demoCaller.run contextSwitch 0).run contextSwitch 0) := by
  have hroom : ∀ {i : Fin 16} {a : BitVec 32} {n : Nat},
      (a - demoImage.stackAddr i 0).toNat + n ≤ 4096 → bytes a n ⊆ demoStacks.stack i := by
    intro i a n h x hx
    change (x - demoImage.stackAddr i 0).toNat < 4096
    rw [mem_bytes] at hx
    bv_omega
  have hcall : demoStacks.Calls demoCaller 0 1 :=
    ⟨by decide +kernel, by decide +kernel, hroom (by decide)⟩
  have hturn : demoStacks.Turn ⟨demoCaller, 0, fun _ => none⟩
      (Stacks.switchTo 1 ⟨demoCaller, 0, fun _ => none⟩) :=
    .switch 1 (by decide) hcall fun _ => hroom (by decide +kernel)
  have hback : demoStacks.Calls (demoCaller.run contextSwitch 0) 1 0 :=
    ⟨by decide +kernel, by decide +kernel, hroom (by decide +kernel)⟩
  exact Stacks.resumes_unchanged demoStacks (by decide) (fun _ => rfl)
    (Relation.ReflTransGen.single hturn) rfl hback

end OsU
